import LanguageClient.Diff.Compact
import LanguageClient.Proofs.Diff.Script

/-!
# What sliding keeps

All that compacting does to a list of blocks is a few moves: a deletion and
an insertion that lie side by side change places, two of a kind become one,
and an insertion passes equal items that it takes itself. Every move leaves a
comparison sound (`Sound`): the blocks still lie side by side, the comparison
is still shortest, and although a deletion may no longer be recorded where it
is, no item of the new sequence between the two places is among the deleted
ones (`Clear`). The last holds because a deletion is only ever passed by
insertions, which have no item in common with it.

* `Refits`: what blocks that take the place of others have to keep, with one
  lemma for each move.
* `Sound.swap`, `Sound.fuse`, `Sound.up`, `Sound.down`: a move leaves a
  comparison sound.
-/
namespace LanguageClient.Diff

variable {α : Type}

/-! ## Deletions and where they are recorded -/

/-- No item of a sequence between two places is among some items. -/
def Apart (b : List α) (s n : Nat) (items : List α) : Prop :=
  ∀ x, min s n ≤ x → x < max s n → ∀ z ∈ items, b[x]? ≠ some z

/-- Where the deletions since the last equal items are recorded, behind a block. -/
def recorded (starts : List Nat) (x : Block) : List Nat :=
  match x.kind with
  | .equal => []
  | .delete => x.newStart :: starts
  | _ => starts

/-- Each deletion, of blocks that start at item `n` of the new sequence, has nothing in common with
the new items between it and where it, or one before it up to the last equal items, is recorded;
`starts` are the places recorded before the first block. -/
def Clear (a b : List α) : Nat → List Nat → List Block → Prop
  | _, _, [] => True
  | n, starts, x :: bs =>
    (x.kind = .delete → ∀ s ∈ x.newStart :: starts, Apart b s n (x.oldItems a)) ∧
      Clear a b (n + x.newLength) (recorded starts x) bs

/-- Where the deletions are recorded. -/
def deletions (bs : List Block) : List Nat :=
  (bs.filter fun x => x.kind = .delete).map Block.newStart

@[simp] theorem deletions_nil : deletions [] = [] := rfl

@[simp] theorem deletions_append (bs cs : List Block) :
    deletions (bs ++ cs) = deletions bs ++ deletions cs := by
  simp [deletions]

theorem deletions_cons_of_ne {x : Block} (h : x.kind ≠ .delete) (bs : List Block) :
    deletions (x :: bs) = deletions bs := by
  simp [deletions, h]

theorem deletions_cons_delete {x : Block} (h : x.kind = .delete) (bs : List Block) :
    deletions (x :: bs) = x.newStart :: deletions bs := by
  simp [deletions, h]

variable {a b : List α}

theorem Apart.trans {s n m : Nat} {items : List α} (h : Apart b s n items)
    (h' : Apart b n m items) : Apart b s m items := by
  intro x hlow hhigh
  by_cases hx : min s n ≤ x ∧ x < max s n
  · exact h x hx.1 hx.2
  · exact h' x (by omega) (by omega)

theorem Apart.append {s n : Nat} {c d : List α} (h : Apart b s n c) (h' : Apart b s n d) :
    Apart b s n (c ++ d) := by
  intro x hlow hhigh z hz
  rcases List.mem_append.1 hz with hz | hz
  · exact h x hlow hhigh z hz
  · exact h' x hlow hhigh z hz

/-- Items that have nothing in common with a part of a sequence. -/
theorem Apart.of_disjoint {n len : Nat} {items : List α}
    (h : ∀ z ∈ items, z ∉ stretch b n len) : Apart b n (n + len) items := by
  intro x hlow hhigh z hz hx
  refine h z hz (List.mem_iff_getElem?.2 ⟨x - n, ?_⟩)
  rw [stretch, List.getElem?_take_of_lt (by omega), List.getElem?_drop,
    Nat.add_sub_cancel' (by omega)]
  exact hx

theorem Apart.symm {s n : Nat} {items : List α} (h : Apart b s n items) : Apart b n s items := by
  intro x hlow hhigh
  exact h x (by omega) (by omega)

theorem clear_append {n : Nat} {starts : List Nat} (bs cs : List Block) :
    Clear a b n starts (bs ++ cs) ↔
      Clear a b n starts bs ∧ Clear a b (n + newTotal bs) (bs.foldl recorded starts) cs := by
  induction bs generalizing n starts with
  | nil => simp [Clear]
  | cons x bs ih => simp [Clear, ih, and_assoc, Nat.add_assoc]

theorem recorded_subset {starts starts' : List Nat} (h : ∀ s ∈ starts, s ∈ starts') (x : Block) :
    ∀ s ∈ recorded starts x, s ∈ recorded starts' x := by
  intro s hs
  unfold recorded at hs ⊢
  cases hk : x.kind <;> simp only [hk] at hs ⊢
  · exact hs
  · rcases List.mem_cons.1 hs with rfl | hs
    · exact List.mem_cons_self ..
    · exact List.mem_cons_of_mem _ (h s hs)
  · exact h s hs
  · exact h s hs

/-- The fewer places are recorded, the less is asked for. -/
theorem Clear.mono {n : Nat} {starts starts' : List Nat} {bs : List Block}
    (hsub : ∀ s ∈ starts, s ∈ starts') (h : Clear a b n starts' bs) : Clear a b n starts bs := by
  induction bs generalizing n starts starts' with
  | nil => trivial
  | cons x bs ih =>
    refine ⟨fun hk s hs => h.1 hk s ?_, ih (recorded_subset hsub x) h.2⟩
    rcases List.mem_cons.1 hs with rfl | hs
    · exact List.mem_cons_self ..
    · exact List.mem_cons_of_mem _ (hsub s hs)

/-! ## The kinds of blocks -/

variable {o n : Nat} {x y : Block} {q : List Block}

theorem recorded_of_insert {starts : List Nat} (h : x.kind = .insert) :
    recorded starts x = starts := by
  simp [recorded, h]

theorem recorded_of_delete {starts : List Nat} (h : x.kind = .delete) :
    recorded starts x = x.newStart :: starts := by
  simp [recorded, h]

theorem recorded_of_equal {starts : List Nat} (h : x.kind = .equal) : recorded starts x = [] := by
  simp [recorded, h]

theorem fits_equal (h : x.kind = .equal) : Fits a b o n x ↔ x.oldStart = o ∧ x.newStart = n ∧
    x.newLength = x.oldLength ∧ x.oldItems a = x.newItems b ∧ 0 < x.oldLength := by
  simp [Fits, h]

theorem fits_delete (h : x.kind = .delete) : Fits a b o n x ↔
    x.oldStart = o ∧ x.newLength = 0 ∧ 0 < x.oldLength := by
  simp [Fits, h]

theorem fits_insert (h : x.kind = .insert) : Fits a b o n x ↔
    x.newStart = n ∧ x.oldLength = 0 ∧ 0 < x.newLength := by
  simp [Fits, h]

/-- What two blocks side by side take of the old sequence. -/
theorem oldItems_fuse (h : y.oldStart = x.oldStart + x.oldLength) :
    ({ x with oldLength := x.oldLength + y.oldLength } : Block).oldItems a =
      x.oldItems a ++ y.oldItems a := by
  show stretch a x.oldStart (x.oldLength + y.oldLength) = _
  rw [stretch_add, ← h]
  rfl

/-! ## Moves in one place -/

/-- Blocks that may stand in the place of others, from `o` and `n` on. -/
structure Refits (a b : List α) (o n : Nat) (bs cs : List Block) : Prop where
  tiles : Tiles a b o n cs
  old : oldTotal cs = oldTotal bs
  new : newTotal cs = newTotal bs
  cost : cost cs = cost bs
  clear : ∀ starts, Clear a b n starts bs → Clear a b n starts cs
  deletions : (deletions cs).Sublist (deletions bs)

theorem Refits.refl {bs : List Block} (h : Tiles a b o n bs) : Refits a b o n bs bs :=
  ⟨h, rfl, rfl, rfl, fun _ hc => hc, List.Sublist.refl _⟩

/-- A deletion goes behind the insertion after it, which it has nothing in common with. -/
theorem refits_delete_insert (ht : Tiles a b o n (x :: y :: q))
    (hx : x.kind = .delete) (hy : y.kind = .insert)
    (hd : ∀ z ∈ stretch a o x.oldLength, z ∉ stretch b n y.newLength) :
    Refits a b o n (x :: y :: q) (y :: x :: q) := by
  obtain ⟨hxf, hyf, hq⟩ := ht
  obtain ⟨hxo, hxn, hxl⟩ := (fits_delete hx).1 hxf
  simp only [hxn, Nat.add_zero] at hyf hq
  obtain ⟨hyn, hyo, hyl⟩ := (fits_insert hy).1 hyf
  simp only [hyo, Nat.add_zero] at hq
  refine ⟨⟨(fits_insert hy).2 ⟨hyn, hyo, hyl⟩, (fits_delete hx).2 ⟨by omega, hxn, hxl⟩, ?_⟩,
    ?_, ?_, ?_, ?_, ?_⟩
  · simpa only [hyo, hxn, Nat.add_zero] using hq
  · simp only [oldTotal_cons]; omega
  · simp only [newTotal_cons]; omega
  · simp only [cost, hx, hy, reduceCtorEq, if_false]; omega
  · rintro starts ⟨hxc, -, hqc⟩
    refine ⟨fun h => absurd (hy.symm.trans h) (by decide), fun _ s hs => ?_, ?_⟩
    · rw [recorded_of_insert hy] at hs
      refine (hxc hx s hs).trans (.of_disjoint ?_)
      rw [Block.oldItems, hxo]
      exact hd
    · simpa only [recorded_of_insert hy, recorded_of_delete hx, hxn, Nat.add_zero] using hqc
  · simp [deletions, hx, hy]

/-- An insertion goes behind the deletion after it, which it has nothing in common with. -/
theorem refits_insert_delete (ht : Tiles a b o n (x :: y :: q)) (hx : x.kind = .insert)
    (hy : y.kind = .delete) (hd : ∀ z ∈ stretch a o y.oldLength, z ∉ stretch b n x.newLength) :
    Refits a b o n (x :: y :: q) (y :: x :: q) := by
  obtain ⟨hxf, hyf, hq⟩ := ht
  obtain ⟨hxn, hxo, hxl⟩ := (fits_insert hx).1 hxf
  simp only [hxo, Nat.add_zero] at hyf hq
  obtain ⟨hyo, hyn, hyl⟩ := (fits_delete hy).1 hyf
  simp only [hyn, Nat.add_zero] at hq
  refine ⟨⟨(fits_delete hy).2 ⟨hyo, hyn, hyl⟩, (fits_insert hx).2 ⟨by omega, hxo, hxl⟩, ?_⟩,
    ?_, ?_, ?_, ?_, ?_⟩
  · simpa only [hyn, hxo, Nat.add_zero] using hq
  · simp only [oldTotal_cons]; omega
  · simp only [newTotal_cons]; omega
  · simp only [cost, hx, hy, reduceCtorEq, if_false]; omega
  · rintro starts ⟨-, hyc, hqc⟩
    rw [recorded_of_insert hx] at hyc hqc
    refine ⟨fun _ s hs => (hyc hy s hs).trans (Apart.of_disjoint ?_).symm,
      fun h => absurd (hx.symm.trans h) (by decide), ?_⟩
    · rw [Block.oldItems, hyo]
      exact hd
    · simpa only [recorded_of_insert hx, recorded_of_delete hy, hyn, Nat.add_zero] using hqc
  · simp [deletions, hx, hy]

/-- Two deletions side by side become one, recorded where the first one is. -/
theorem refits_delete_delete (ht : Tiles a b o n (x :: y :: q)) (hx : x.kind = .delete)
    (hy : y.kind = .delete) :
    Refits a b o n (x :: y :: q) (x.lengthen y.oldLength :: q) := by
  obtain ⟨hxf, hyf, hq⟩ := ht
  obtain ⟨hxo, hxn, hxl⟩ := (fits_delete hx).1 hxf
  simp only [hxn, Nat.add_zero] at hyf hq
  obtain ⟨hyo, hyn, hyl⟩ := (fits_delete hy).1 hyf
  have hl : x.lengthen y.oldLength = { x with oldLength := x.oldLength + y.oldLength } := by
    simp [Block.lengthen, hx]
  rw [hl]
  have hk : ({ x with oldLength := x.oldLength + y.oldLength } : Block).kind = .delete := hx
  refine ⟨⟨(fits_delete hk).2 ⟨hxo, hxn, by simp only; omega⟩, ?_⟩, ?_, ?_, ?_, ?_, ?_⟩
  · simpa only [hxn, hyn, Nat.add_zero, Nat.add_assoc] using hq
  · simp only [oldTotal_cons]; omega
  · simp only [newTotal_cons]; omega
  · simp only [cost, hx, hy, reduceCtorEq, if_false]; omega
  · rintro starts ⟨hxc, hyc, hqc⟩
    rw [recorded_of_delete hx, hxn] at hyc
    rw [recorded_of_delete hx, recorded_of_delete hy, hxn, hyn] at hqc
    refine ⟨fun _ s hs => ?_, ?_⟩
    · rw [oldItems_fuse (by rw [hyo, hxo])]
      exact (hxc hx s hs).append (hyc hy s (List.mem_cons_of_mem _ hs))
    · rw [recorded_of_delete hk]
      simp only [hxn, Nat.add_zero]
      exact hqc.mono fun s hs => List.mem_cons_of_mem _ hs
  · rw [deletions_cons_delete hx, deletions_cons_delete hy, deletions_cons_delete hk]
    exact (List.sublist_cons_self ..).cons_cons _

/-- Two insertions side by side become one. -/
theorem refits_insert_insert (ht : Tiles a b o n (x :: y :: q)) (hx : x.kind = .insert)
    (hy : y.kind = .insert) :
    Refits a b o n (x :: y :: q) (x.lengthen y.newLength :: q) := by
  obtain ⟨hxf, hyf, hq⟩ := ht
  obtain ⟨hxn, hxo, hxl⟩ := (fits_insert hx).1 hxf
  simp only [hxo, Nat.add_zero] at hyf hq
  obtain ⟨hyn, hyo, hyl⟩ := (fits_insert hy).1 hyf
  have hl : x.lengthen y.newLength = { x with newLength := x.newLength + y.newLength } := by
    simp [Block.lengthen, hx]
  rw [hl]
  have hk : ({ x with newLength := x.newLength + y.newLength } : Block).kind = .insert := hx
  refine ⟨⟨(fits_insert hk).2 ⟨hxn, hxo, by simp only; omega⟩, ?_⟩, ?_, ?_, ?_, ?_, ?_⟩
  · simpa only [hxo, hyo, Nat.add_zero, Nat.add_assoc] using hq
  · simp only [oldTotal_cons]; omega
  · simp only [newTotal_cons]; omega
  · simp only [cost, hx, hy, reduceCtorEq, if_false]; omega
  · rintro starts ⟨-, -, hqc⟩
    rw [recorded_of_insert hx, recorded_of_insert hy] at hqc
    refine ⟨fun h => absurd (hk.symm.trans h) (by decide), ?_⟩
    rw [recorded_of_insert hk]
    simpa only [Nat.add_assoc] using hqc
  · simp [deletions, hx, hy]

/-! ## Sliding over equal items -/

section

variable (i j k : Nat)

@[simp] theorem kind_equal : (Block.equal i j k).kind = .equal := rfl

@[simp] theorem oldLength_equal : (Block.equal i j k).oldLength = k := rfl

@[simp] theorem newLength_equal : (Block.equal i j k).newLength = k := rfl

@[simp] theorem kind_insert : (Block.insert i j k).kind = .insert := rfl

@[simp] theorem oldLength_insert : (Block.insert i j k).oldLength = 0 := rfl

@[simp] theorem newLength_insert : (Block.insert i j k).newLength = k := rfl

end

theorem exists_equal (h : x.kind = .equal) (hf : Fits a b o n x) : ∃ k, x = .equal o n k := by
  obtain ⟨ho, hn, hl, -, -⟩ := (fits_equal h).1 hf
  obtain ⟨kind, i, k, j, l⟩ := x
  simp only at h ho hn hl
  exact ⟨k, by simp only [Block.equal, h, ho, hn, hl]⟩

theorem exists_insert (h : x.kind = .insert) (hf : Fits a b o n x) :
    ∃ i k, x = .insert i n k := by
  obtain ⟨hn, ho, -⟩ := (fits_insert h).1 hf
  obtain ⟨kind, i, l, j, k⟩ := x
  simp only at h ho hn
  exact ⟨i, k, by simp only [Block.insert, h, ho, hn]⟩

theorem tiles_equal_cons {k : Nat} : Tiles a b o n (.equal o n k :: q) ↔
    stretch a o k = stretch b n k ∧ 0 < k ∧ Tiles a b (o + k) (n + k) q := by
  simp [Tiles, Fits, Block.equal, Block.oldItems, Block.newItems, stretch, and_assoc]

theorem tiles_insert_cons {i k : Nat} :
    Tiles a b o n (.insert i n k :: q) ↔ 0 < k ∧ Tiles a b o (n + k) q := by
  simp [Tiles, Fits, Block.insert]

theorem clear_equal_cons {starts : List Nat} {i j k : Nat} :
    Clear a b n starts (.equal i j k :: q) ↔ Clear a b (n + k) [] q := by
  simp [Clear, recorded, Block.equal]

theorem clear_insert_cons {starts : List Nat} {i j k : Nat} :
    Clear a b n starts (.insert i j k :: q) ↔ Clear a b (n + k) starts q := by
  simp [Clear, recorded, Block.insert]

/-- Equal items that may be none. -/
theorem keep_equal (i j k : Nat) (bs : List Block) :
    keep (.equal i j k) bs = if k = 0 then bs else .equal i j k :: bs := by
  by_cases hk : k = 0 <;> simp [keep, Block.isEmpty, Block.equal, hk]

theorem tiles_keep_equal {k : Nat} : Tiles a b o n (keep (.equal o n k) q) ↔
    stretch a o k = stretch b n k ∧ Tiles a b (o + k) (n + k) q := by
  rw [keep_equal]
  split
  · rename_i hk
    simp [hk, stretch]
  · rename_i hk
    rw [tiles_equal_cons]
    simp [Nat.pos_of_ne_zero hk]

@[simp] theorem oldTotal_keep_equal (i j k : Nat) (bs : List Block) :
    oldTotal (keep (.equal i j k) bs) = k + oldTotal bs := by
  rw [keep_equal]
  split <;> simp [*]

@[simp] theorem newTotal_keep_equal (i j k : Nat) (bs : List Block) :
    newTotal (keep (.equal i j k) bs) = k + newTotal bs := by
  rw [keep_equal]
  split <;> simp [*]

@[simp] theorem cost_keep_equal (i j k : Nat) (bs : List Block) :
    cost (keep (.equal i j k) bs) = cost bs := by
  rw [keep_equal]
  split <;> simp [cost]

@[simp] theorem deletions_equal_cons (i j k : Nat) (bs : List Block) :
    deletions (.equal i j k :: bs) = deletions bs := by
  simp [deletions]

@[simp] theorem deletions_insert_cons (i j k : Nat) (bs : List Block) :
    deletions (.insert i j k :: bs) = deletions bs := by
  simp [deletions]

@[simp] theorem deletions_keep_equal (i j k : Nat) (bs : List Block) :
    deletions (keep (.equal i j k) bs) = deletions bs := by
  rw [keep_equal]
  split <;> simp

theorem stretch_split {c : List α} {i k m : Nat} (h : m ≤ k) :
    (stretch c i k).take m = stretch c i m ∧
      (stretch c i k).drop m = stretch c (i + m) (k - m) := by
  simp [stretch, List.take_take, List.drop_take, Nat.min_eq_left h]

/-- An insertion goes up over equal items that it ends with. -/
theorem refits_up [DecidableEq α] {i k l m : Nat}
    (ht : Tiles a b o n (.equal o n k :: .insert i (n + k) l :: q)) (ho : o + k ≤ a.length)
    (hn : n + k + l ≤ b.length)
    (hm : commonSuffix (stretch a o k) (stretch b (n + k) l) = m) (hpos : 0 < m) :
    Refits a b o n (.equal o n k :: .insert i (n + k) l :: q)
      (keep (.equal o n (k - m)) (.insert (i - m) (n + (k - m)) l ::
        .equal (o + (k - m)) (n + (k - m) + l) m :: q)) := by
  rw [tiles_equal_cons, tiles_insert_cons] at ht
  obtain ⟨hitems, -, hl, hq⟩ := ht
  have hlen := length_stretch (c := a) (i := o) (n := k) (by omega)
  have hlen' := length_stretch (c := b) (i := n + k) (n := l) (by omega)
  have hle := commonSuffix_le (stretch a o k) (stretch b (n + k) l)
  have hdrop := drop_commonSuffix (stretch a o k) (stretch b (n + k) l)
  rw [hm, hlen, hlen'] at hle hdrop
  rw [(stretch_split (by omega)).2, (stretch_split (by omega)).2, Nat.sub_sub_self hle.1,
    Nat.sub_sub_self hle.2] at hdrop
  have hk : k - m + m = k := by omega
  refine ⟨tiles_keep_equal.2 ⟨?_, tiles_insert_cons.2 ⟨hl, tiles_equal_cons.2 ⟨?_, hpos, ?_⟩⟩⟩,
    ?_, ?_, ?_, ?_, ?_⟩
  · rw [← (stretch_split (Nat.sub_le k m)).1, hitems, (stretch_split (Nat.sub_le k m)).1]
  · rw [hdrop]
    congr 1
    omega
  · rw [Nat.add_assoc o, hk, show n + (k - m) + l + m = n + k + l by omega]
    exact hq
  · simp
    omega
  · simp
    omega
  · simp [cost]
  · intro starts hc
    rw [clear_equal_cons, clear_insert_cons] at hc
    have hback : n + (k - m) + l + m = n + k + l := by omega
    rw [keep_equal]
    split
    · rename_i he
      rw [he, Nat.add_zero] at hback
      rw [clear_insert_cons, clear_equal_cons, hback]
      exact hc
    · rw [clear_equal_cons, clear_insert_cons, clear_equal_cons, hback]
      exact hc
  · simp

/-- An insertion goes down over equal items that it starts with. -/
theorem refits_down [DecidableEq α] {i k l m : Nat}
    (ht : Tiles a b o n (.insert i n l :: .equal o (n + l) k :: q)) (ho : o + k ≤ a.length)
    (hn : n + l + k ≤ b.length)
    (hm : commonPrefix (stretch a o k) (stretch b n l) = m) (hpos : 0 < m) :
    Refits a b o n (.insert i n l :: .equal o (n + l) k :: q)
      (.equal o n m :: .insert (i + m) (n + m) l ::
        keep (.equal (o + m) (n + m + l) (k - m)) q) := by
  rw [tiles_insert_cons, tiles_equal_cons] at ht
  obtain ⟨hl, hitems, -, hq⟩ := ht
  have hle := commonPrefix_le (stretch a o k) (stretch b n l)
  have htake := take_commonPrefix (stretch a o k) (stretch b n l)
  rw [hm, length_stretch (by omega), length_stretch (by omega)] at hle
  rw [hm, (stretch_split hle.1).1, (stretch_split hle.2).1] at htake
  have hk : m + (k - m) = k := by omega
  have hback : n + m + l + (k - m) = n + l + k := by omega
  refine ⟨tiles_equal_cons.2 ⟨htake, hpos, tiles_insert_cons.2 ⟨hl, tiles_keep_equal.2 ⟨?_, ?_⟩⟩⟩,
    ?_, ?_, ?_, ?_, ?_⟩
  · rw [← (stretch_split hle.1).2, hitems, (stretch_split hle.1).2]
    congr 1
    omega
  · rw [Nat.add_assoc o, hk, hback]
    exact hq
  · simp
    omega
  · simp
    omega
  · simp [cost]
  · intro starts hc
    rw [clear_insert_cons, clear_equal_cons] at hc
    rw [clear_equal_cons, clear_insert_cons]
    rw [keep_equal]
    split
    · rename_i he
      rw [he, Nat.add_zero] at hback
      rw [hback]
      exact hc
    · rw [clear_equal_cons, hback]
      exact hc
  · simp

/-- Equal items side by side become one block. -/
theorem refits_equal_equal {k l : Nat}
    (ht : Tiles a b o n (.equal o n k :: .equal (o + k) (n + k) l :: q)) :
    Refits a b o n (.equal o n k :: .equal (o + k) (n + k) l :: q) (.equal o n (k + l) :: q) := by
  rw [tiles_equal_cons, tiles_equal_cons] at ht
  obtain ⟨hk, hkpos, hl, -, hq⟩ := ht
  refine ⟨tiles_equal_cons.2 ⟨?_, by omega, ?_⟩, ?_, ?_, ?_, ?_, ?_⟩
  · rw [stretch_add, stretch_add, hk, hl]
  · rwa [← Nat.add_assoc, ← Nat.add_assoc]
  · simp [Nat.add_assoc]
  · simp [Nat.add_assoc]
  · simp [cost]
  · intro starts hc
    rw [clear_equal_cons, clear_equal_cons, Nat.add_assoc] at hc
    rwa [clear_equal_cons]
  · simp

/-- Equal items become part of the equal items after them. -/
theorem refits_putAfter {k : Nat} (ht : Tiles a b o n (.equal o n k :: q)) :
    Refits a b o n (.equal o n k :: q) (putAfter (.equal o n k) k q) := by
  unfold putAfter
  split
  · rename_i y r
    split
    · rename_i hy
      obtain ⟨l, rfl⟩ := exists_equal hy (tiles_equal_cons.1 ht).2.2.1
      have hjoin : ((Block.equal (o + k) (n + k) l).shiftLeft k).lengthen k =
          .equal o n (k + l) := by
        simp [Block.shiftLeft, Block.lengthen, Block.equal, Nat.add_comm]
      rw [hjoin]
      exact refits_equal_equal ht
    · exact .refl ht
  · exact .refl ht

/-! ## Sound comparisons -/

variable [DecidableEq α]

/-- A shortest comparison of two sequences that leaves nothing wrong about its deletions that would
not show. -/
structure Sound (a b : List α) (bs : List Block) : Prop where
  covers : Covers a b bs
  shortest : cost bs = dist a b
  clear : Clear a b 0 [] bs
  sorted : (deletions bs).Pairwise (· ≤ ·)

theorem Sound.refit {p bs cs : List Block} (h : Sound a b (p ++ bs))
    (hr : Refits a b (oldTotal p) (newTotal p) bs cs) : Sound a b (p ++ cs) where
  covers := by
    obtain ⟨ht, ho, hn⟩ := h.covers
    rw [oldTotal_append] at ho
    rw [newTotal_append] at hn
    refine ⟨(tiles_append a b p cs).2 ⟨((tiles_append a b p bs).1 ht).1, ?_⟩, ?_, ?_⟩
    · rw [Nat.zero_add, Nat.zero_add]; exact hr.tiles
    · rw [oldTotal_append, hr.old, ho]
    · rw [newTotal_append, hr.new, hn]
  shortest := by rw [cost_append, hr.cost, ← cost_append, h.shortest]
  clear := by
    have hc := (clear_append p bs).1 h.clear
    refine (clear_append p cs).2 ⟨hc.1, ?_⟩
    rw [Nat.zero_add] at hc ⊢
    exact hr.clear _ hc.2
  sorted := by
    have hs := h.sorted
    rw [deletions_append] at hs ⊢
    exact hs.sublist (hr.deletions.append_left _)

/-- The blocks behind some others lie side by side up to the ends of both sequences. -/
theorem Sound.behind {p bs : List Block} (h : Sound a b (p ++ bs)) :
    Tiles a b (oldTotal p) (newTotal p) bs ∧ oldTotal p + oldTotal bs = a.length ∧
      newTotal p + newTotal bs = b.length := by
  obtain ⟨ht, ho, hn⟩ := h.covers
  have := ((tiles_append a b p bs).1 ht).2
  rw [Nat.zero_add, Nat.zero_add] at this
  exact ⟨this, by rw [← oldTotal_append, ho], by rw [← newTotal_append, hn]⟩

/-- A deletion and an insertion side by side change places. -/
theorem Sound.swap {p : List Block} (h : Sound a b (p ++ x :: y :: q)) (hx : x.kind ≠ .equal)
    (hy : y.kind ≠ .equal) (hxy : x.kind ≠ y.kind) : Sound a b (p ++ y :: x :: q) := by
  obtain ⟨ht, -, -⟩ := h.behind
  have hd : ∀ z ∈ stretch a (oldTotal p) (oldTotal [x, y]),
      z ∉ stretch b (newTotal p) (newTotal [x, y]) := by
    intro z
    refine disjoint_of_shortest (q := q) (by simpa using h.covers) (by simpa using h.shortest) ?_
    simpa using ⟨hx, hy⟩
  have hxr := ht.kind_ne_replace (x := x) (by simp)
  have hyr := ht.kind_ne_replace (x := y) (by simp)
  simp only [oldTotal_cons, newTotal_cons, oldTotal_nil, newTotal_nil, Nat.add_zero] at hd
  have hxf := ht.1
  have hyf := ht.2.1
  cases hxk : x.kind with
  | equal => exact absurd hxk hx
  | replace => exact absurd hxk hxr
  | delete =>
    cases hyk : y.kind with
    | equal => exact absurd hyk hy
    | replace => exact absurd hyk hyr
    | delete => exact absurd (hxk.trans hyk.symm) hxy
    | insert =>
      rw [((fits_delete hxk).1 hxf).2.1, ((fits_insert hyk).1 hyf).2.1, Nat.add_zero,
        Nat.zero_add] at hd
      exact h.refit (refits_delete_insert ht hxk hyk hd)
  | insert =>
    cases hyk : y.kind with
    | equal => exact absurd hyk hy
    | replace => exact absurd hyk hyr
    | insert => exact absurd (hxk.trans hyk.symm) hxy
    | delete =>
      rw [((fits_insert hxk).1 hxf).2.1, ((fits_delete hyk).1 hyf).2.1, Nat.add_zero,
        Nat.zero_add] at hd
      exact h.refit (refits_insert_delete ht hxk hyk hd)

/-- Two deletions or two insertions side by side become one. -/
theorem Sound.fuse {p : List Block} (h : Sound a b (p ++ x :: y :: q)) (hx : x.kind ≠ .equal)
    (hxy : x.kind = y.kind) :
    Sound a b (p ++ x.lengthen (if y.kind = .delete then y.oldLength else y.newLength) :: q) := by
  obtain ⟨ht, -, -⟩ := h.behind
  have hxr := ht.kind_ne_replace (x := x) (by simp)
  cases hxk : x.kind with
  | equal => exact absurd hxk hx
  | replace => exact absurd hxk hxr
  | delete =>
    rw [if_pos (hxy.symm.trans hxk)]
    exact h.refit (refits_delete_delete ht hxk (hxy.symm.trans hxk))
  | insert =>
    rw [if_neg (by simp [hxy.symm.trans hxk])]
    exact h.refit (refits_insert_insert ht hxk (hxy.symm.trans hxk))

/-- Equal items become part of those after them. -/
theorem Sound.putAfter {p : List Block} {i j k : Nat} (h : Sound a b (p ++ .equal i j k :: q)) :
    Sound a b (p ++ putAfter (.equal i j k) k q) := by
  have ht := h.behind.1
  obtain ⟨ho, hn, -⟩ := (fits_equal rfl).1 ht.1
  simp only [Block.equal] at ho hn
  subst ho hn
  exact h.refit (refits_putAfter ht)

/-- Equal items become part of those before them, which are given last first. -/
theorem Sound.putBefore {p : List Block} {i j k : Nat}
    (h : Sound a b (p.reverse ++ .equal i j k :: q)) :
    Sound a b ((putBefore (.equal i j k) k p).reverse ++ q) := by
  unfold Diff.putBefore
  split
  · rename_i y r
    split
    · rename_i hy
      simp only [List.reverse_cons, List.append_assoc, List.cons_append, List.nil_append] at h ⊢
      have ht := h.behind.1
      obtain ⟨l, rfl⟩ := exists_equal hy ht.1
      obtain ⟨ho, hn, -⟩ := (fits_equal rfl).1 ht.2.1
      simp only [Block.equal] at ho hn
      subst ho hn
      have hjoin : (Block.equal (oldTotal r.reverse) (newTotal r.reverse) l).lengthen k =
          .equal (oldTotal r.reverse) (newTotal r.reverse) (l + k) := by
        simp [Block.lengthen, Block.equal]
      rw [hjoin]
      exact h.refit (refits_equal_equal ht)
    · simpa using h
  · simpa using h

theorem keep_append (x : Block) (bs cs : List Block) : keep x (bs ++ cs) = keep x bs ++ cs := by
  unfold keep
  split <;> simp

/-- An insertion goes up over equal items, which become part of those after it. -/
theorem Sound.up {p : List Block} {m : Nat} (h : Sound a b (p ++ x :: y :: q))
    (hx : x.kind = .equal) (hy : y.kind = .insert)
    (hm : commonSuffix (x.oldItems a) (y.newItems b) = m) (hpos : 0 < m) :
    Sound a b (p ++ keep (x.dropLast m) (y.shiftLeft m ::
      Diff.putAfter (.equal (x.oldEnd - m) (y.newEnd - m) m) m q)) := by
  have ⟨ht, ho, hn⟩ := h.behind
  obtain ⟨k, rfl⟩ := exists_equal hx ht.1
  obtain ⟨i, l, rfl⟩ := exists_insert hy ht.2.1
  simp only [newLength_equal, oldTotal_cons, newTotal_cons, oldLength_equal, oldLength_insert,
    newLength_insert] at ho hn hm h ht
  have hle : m ≤ k := by
    have := (commonSuffix_le ((Block.equal (oldTotal p) (newTotal p) k).oldItems a)
      ((Block.insert i (newTotal p + k) l).newItems b)).1
    rw [hm] at this
    exact Nat.le_trans this (List.length_take_le ..)
  have hup := h.refit (refits_up ht (by omega) (by omega) hm hpos)
  -- The insertion and what is left of the equal items before it stay; what follows is joined.
  have hsplit : ∀ e s : Block, ∀ r, p ++ keep e (s :: r) = (p ++ keep e [s]) ++ r := by
    intro e s r
    rw [List.append_assoc, ← keep_append]
    rfl
  rw [hsplit] at hup
  have hjoin := hup.putAfter
  rw [← hsplit] at hjoin
  have he : (Block.equal (oldTotal p) (newTotal p) k).dropLast m =
      .equal (oldTotal p) (newTotal p) (k - m) := rfl
  have hs : (Block.insert i (newTotal p + k) l).shiftLeft m =
      .insert (i - m) (newTotal p + (k - m)) l := by
    simp only [Block.shiftLeft, Block.insert]
    rw [Nat.add_sub_assoc hle]
  have ho' : (Block.equal (oldTotal p) (newTotal p) k).oldEnd - m = oldTotal p + (k - m) :=
    Nat.add_sub_assoc hle _
  have hn' : (Block.insert i (newTotal p + k) l).newEnd - m = newTotal p + (k - m) + l := by
    simp only [Block.newEnd, Block.insert]
    omega
  rw [newLength_equal, he, hs, ho', hn']
  exact hjoin

/-- An insertion goes down over equal items, which become part of those before it; these are given
last first. -/
theorem Sound.down {p : List Block} {m : Nat} (h : Sound a b (p.reverse ++ x :: y :: q))
    (hx : x.kind = .insert) (hy : y.kind = .equal)
    (hm : commonPrefix (y.oldItems a) (x.newItems b) = m) (hpos : 0 < m) :
    Sound a b ((Diff.putBefore (.equal y.oldStart x.newStart m) m p).reverse ++
      x.shiftRight m :: keep (y.dropFirst m) q) := by
  have ⟨ht, ho, hn⟩ := h.behind
  obtain ⟨i, l, rfl⟩ := exists_insert hx ht.1
  obtain ⟨k, rfl⟩ := exists_equal hy ht.2.1
  simp only [Nat.add_zero, newLength_equal, oldTotal_cons, newTotal_cons, oldLength_equal,
    oldLength_insert, newLength_insert] at ho hn hm h ht
  have hdown := (h.refit (refits_down ht (by omega) (by omega) hm hpos)).putBefore
  have he : (Block.equal (oldTotal p.reverse) (newTotal p.reverse + l) k).dropFirst m =
      .equal (oldTotal p.reverse + m) (newTotal p.reverse + m + l) (k - m) := by
    simp only [Block.dropFirst, Block.shiftRight, Block.dropLast, Block.equal]
    rw [Nat.add_right_comm]
  rw [newLength_insert, oldLength_insert, Nat.add_zero, he]
  exact hdown

end LanguageClient.Diff
