import LanguageClient.Proofs.Diff.Middle
import LanguageClient.Proofs.Diff.Tiling

/-!
# Edit scripts are shortest

What two sequences have in common at their ends costs nothing, and a middle
cuts what is left at no loss. So the blocks of a script lie side by side, as
many items are deleted and inserted as the distance says, and every deletion
is recorded where it is.

* `script_compares`: all of this for the script of two sequences.
-/
namespace LanguageClient.Diff

variable {α : Type}

/-- Parts of a part lie one after another. -/
theorem prefix_drop {c d l : List α} {i : Nat} (h : c ++ d <+: l.drop i) :
    c <+: l.drop i ∧ d <+: l.drop (i + c.length) := by
  refine ⟨(List.prefix_append c d).trans h, ?_⟩
  obtain ⟨t, ht⟩ := h
  exact ⟨t, by rw [← List.drop_drop, ← ht, List.append_assoc, List.drop_left]⟩

variable [DecidableEq α]

/-- Blocks that compare `a`, which lies at item `i` of `old`, to `b`, which lies at item `j` of
`new`, in the shortest way. -/
structure Compares (old new : List α) (i j : Nat) (a b : List α) (bs : List Block) : Prop where
  tiles : Tiles old new i j bs
  old : oldTotal bs = a.length
  new : newTotal bs = b.length
  shortest : cost bs = dist a b
  inPlace : InPlace j bs

variable {old new a b a' b' : List α} {i j : Nat}

theorem Compares.append {bs cs : List Block} (h : Compares old new i j a b bs)
    (h' : Compares old new (i + a.length) (j + b.length) a' b' cs)
    (hd : dist (a ++ a') (b ++ b') = dist a b + dist a' b') :
    Compares old new i j (a ++ a') (b ++ b') (bs ++ cs) where
  tiles := (tiles_append old new bs cs).2 ⟨h.tiles, by rw [h.old, h.new]; exact h'.tiles⟩
  old := by rw [oldTotal_append, h.old, h'.old, List.length_append]
  new := by rw [newTotal_append, h.new, h'.new, List.length_append]
  shortest := by rw [cost_append, h.shortest, h'.shortest, hd]
  inPlace := (inPlace_append bs cs).2 ⟨h.inPlace, by rw [h.new]; exact h'.inPlace⟩

theorem Compares.nil (old new : List α) (i j : Nat) : Compares old new i j [] [] [] :=
  ⟨trivial, rfl, rfl, by rw [dist_self]; rfl, trivial⟩

/-- Items that both sequences have. -/
theorem Compares.equal {c : List α} (ho : c <+: old.drop i) (hn : c <+: new.drop j) :
    Compares old new i j c c (if c.length = 0 then [] else [.equal i j c.length]) := by
  split
  · rename_i h
    rw [List.length_eq_zero_iff.1 h]
    exact .nil ..
  · rename_i h
    refine ⟨⟨⟨rfl, rfl, rfl, ?_, Nat.pos_of_ne_zero h⟩, trivial⟩, by simp [Block.equal],
      by simp [Block.equal], by simp [cost, Block.equal, dist_self], fun h => (by cases h), trivial⟩
    show (old.drop i).take c.length = (new.drop j).take c.length
    rw [← List.prefix_iff_eq_take.1 ho, ← List.prefix_iff_eq_take.1 hn]

/-- Items that are gone. -/
theorem Compares.delete (ha : a ≠ []) : Compares old new i j a [] [.delete i a.length j] :=
  ⟨⟨⟨rfl, rfl, List.length_pos_iff.2 ha⟩, trivial⟩, by simp [Block.delete],
    by simp [Block.delete], by simp [cost, Block.delete, dist_nil_right], fun _ => rfl, trivial⟩

/-- Items that came. -/
theorem Compares.insert (hb : b ≠ []) : Compares old new i j [] b [.insert i j b.length] :=
  ⟨⟨⟨rfl, rfl, List.length_pos_iff.2 hb⟩, trivial⟩, by simp [Block.insert],
    by simp [Block.insert], by simp [cost, Block.insert, dist_nil_left], fun h => (by cases h),
    trivial⟩

/-! ## What a middle is looked for in -/

theorem commonPrefix_self_append (a b : List α) : commonPrefix (a ++ b) a = a.length := by
  induction a with
  | nil => cases b <;> rfl
  | cons x a ih => simp [commonPrefix, ih]

theorem commonPrefix_comm (a b : List α) : commonPrefix a b = commonPrefix b a := by
  induction a generalizing b with
  | nil => cases b <;> rfl
  | cons x a ih =>
    cases b with
    | nil => rfl
    | cons y b => simp only [commonPrefix, ih b, eq_comm]

/-- Sequences that have nothing in common at their ends differ by more than one edit. -/
theorem two_le_dist (ha : a ≠ []) (hb : b ≠ []) (hp : commonPrefix a b = 0)
    (hs : commonSuffix a b = 0) : 2 ≤ dist a b := by
  obtain ⟨x, a, rfl⟩ := List.exists_cons_of_ne_nil ha
  obtain ⟨y, b, rfl⟩ := List.exists_cons_of_ne_nil hb
  have hxy : x ≠ y := fun h => by simp [commonPrefix, h] at hp
  obtain ⟨e, he, h⟩ := (edits_dist (x :: a) (y :: b)).cons_cons_of_ne hxy
  rcases Nat.lt_or_ge 0 e with hpos | hpos
  · omega
  obtain rfl : e = 0 := Nat.le_zero.1 hpos
  -- One sequence would be the other without its first item, so both would end in the same item.
  rcases h with h | h
  · have hab := h.eq_of_zero
    rw [hab, commonSuffix, List.reverse_cons, commonPrefix_self_append] at hs
    simp at hs
  · have hab := h.eq_of_zero
    rw [← hab, commonSuffix, commonPrefix_comm, List.reverse_cons (a := y),
      commonPrefix_self_append] at hs
    simp at hs

/-- What is left of two sequences without what they have in common at their ends. -/
theorem commonPrefix_take {m n : Nat} (h : commonPrefix a b = 0) :
    commonPrefix (a.take m) (b.take n) = 0 := by
  cases a with
  | nil => cases b <;> simp [commonPrefix]
  | cons x a =>
    cases b with
    | nil => simp [commonPrefix]
    | cons y b =>
      have hxy : x ≠ y := fun h' => by simp [commonPrefix, h'] at h
      cases m <;> cases n <;> simp [commonPrefix, hxy]

theorem commonSuffix_le (a b : List α) :
    commonSuffix a b ≤ a.length ∧ commonSuffix a b ≤ b.length := by
  simpa [commonSuffix] using commonPrefix_le a.reverse b.reverse

theorem drop_commonSuffix (a b : List α) :
    a.drop (a.length - commonSuffix a b) = b.drop (b.length - commonSuffix a b) := by
  have h := take_commonPrefix a.reverse b.reverse
  rw [List.take_reverse, List.take_reverse] at h
  exact List.reverse_inj.1 h

theorem commonSuffix_take (a b : List α) :
    commonSuffix (a.take (a.length - commonSuffix a b)) (b.take (b.length - commonSuffix a b)) =
      0 := by
  have h := commonPrefix_drop a.reverse b.reverse
  rwa [List.drop_reverse, List.drop_reverse] at h

/-! ## Divide and conquer -/

/-- A comparison between what two sequences have in common at their ends. -/
theorem Compares.frame {c e : List α} {bs : List Block} (ho : c ++ (a ++ e) <+: old.drop i)
    (hn : c ++ (b ++ e) <+: new.drop j)
    (h : Compares old new (i + c.length) (j + c.length) a b bs) :
    Compares old new i j (c ++ (a ++ e)) (c ++ (b ++ e))
      ((if c.length = 0 then [] else [.equal i j c.length]) ++ (bs ++
        if e.length = 0 then []
        else [.equal (i + c.length + a.length) (j + c.length + b.length) e.length])) := by
  obtain ⟨hco, ho⟩ := prefix_drop ho
  obtain ⟨hcn, hn⟩ := prefix_drop hn
  refine (Compares.equal hco hcn).append (h.append ?_ ?_) ?_
  · exact .equal (prefix_drop ho).2 (prefix_drop hn).2
  · rw [dist_append_right, dist_self, Nat.add_zero]
  · rw [dist_append_left, dist_self, Nat.zero_add]

/-- Two sequences are what they have in common at their ends, and something in between that has
nothing in common there. -/
theorem exists_frame (a b : List α) : ∃ c e m m', a = c ++ (m ++ e) ∧ b = c ++ (m' ++ e) ∧
    c.length = commonPrefix a b ∧ e.length = commonSuffix (m ++ e) (m' ++ e) ∧
    commonPrefix m m' = 0 ∧ commonSuffix m m' = 0 := by
  have hp := commonPrefix_le a b
  have hs := commonSuffix_le (a.drop (commonPrefix a b)) (b.drop (commonPrefix a b))
  have hc := take_commonPrefix a b
  have he := drop_commonSuffix (a.drop (commonPrefix a b)) (b.drop (commonPrefix a b))
  refine ⟨a.take (commonPrefix a b), (a.drop (commonPrefix a b)).drop
    ((a.drop (commonPrefix a b)).length -
      commonSuffix (a.drop (commonPrefix a b)) (b.drop (commonPrefix a b))),
    _, _, ?_, ?_, ?_, ?_, commonPrefix_take (commonPrefix_drop a b), commonSuffix_take _ _⟩
  · rw [List.take_append_drop, List.take_append_drop]
  · rw [he, List.take_append_drop, hc, List.take_append_drop]
  · simp only [List.length_take]; omega
  · rw [List.take_append_drop, he, List.take_append_drop]
    simp only [List.length_drop] at hs ⊢
    omega

/-- The two halves of what is left are compared apart. -/
theorem Compares.halves {bs cs : List Block} {x y : Nat} (hcut : IsCut a b x y)
    (h : Compares old new i j (a.take x) (b.take y) bs)
    (h' : Compares old new (i + x) (j + y) (a.drop x) (b.drop y) cs) :
    Compares old new i j a b (bs ++ cs) := by
  have hx : (a.take x).length = x := List.length_take_of_le hcut.left
  have hy : (b.take y).length = y := List.length_take_of_le hcut.right
  have hall := h.append (by rw [hx, hy]; exact h') (by
    rw [List.take_append_drop, List.take_append_drop]; exact hcut.shortest.symm)
  rwa [List.take_append_drop, List.take_append_drop] at hall

theorem conquer_compares (old new : List α) (fuel : Nat) :
    ∀ (a b : List α) (i j : Nat), a <+: old.drop i → b <+: new.drop j →
      a.length + b.length < fuel → Compares old new i j a b (conquer fuel a b i j) := by
  induction fuel with
  | zero => intro a b i j _ _ h; omega
  | succ fuel ih =>
    intro a b i j ha hb hfuel
    obtain ⟨c, e, m, m', rfl, rfl, hc, he, hp, hs⟩ := exists_frame a b
    have hmo := (prefix_drop (prefix_drop ha).2).1
    have hmn := (prefix_drop (prefix_drop hb).2).1
    simp only [List.length_append] at hfuel
    have htake : (m ++ e).take ((m ++ e).length - e.length) = m := by simp
    have htake' : (m' ++ e).take ((m' ++ e).length - e.length) = m' := by simp
    simp only [conquer, ← hc, List.drop_left, ← he, htake, htake', Nat.add_sub_cancel,
      List.append_assoc]
    refine Compares.frame ha hb ?_
    split
    · rename_i hm
      obtain rfl := List.isEmpty_iff.1 hm
      split
      · rename_i hm'
        obtain rfl := List.isEmpty_iff.1 hm'
        exact .nil ..
      · rename_i hm'
        exact .insert (by simpa using hm')
    · rename_i hm
      split
      · rename_i hm'
        obtain rfl := List.isEmpty_iff.1 hm'
        exact .delete (by simpa using hm)
      · rename_i hm'
        obtain ⟨x, y, hmid, hcut⟩ :=
          middle?_spec (two_le_dist (by simpa using hm) (by simpa using hm') hp hs)
        rw [hmid]
        have hbefore := dist_lengths (m.take x) (m'.take y)
        have hafter := dist_lengths (m.drop x) (m'.drop y)
        have hb0 := hcut.before
        have ha0 := hcut.after
        have hx := hcut.left
        have hy := hcut.right
        simp only [List.length_take, List.length_drop] at hbefore hafter
        refine Compares.halves hcut (ih _ _ _ _ ?_ ?_ ?_) (ih _ _ _ _ ?_ ?_ ?_)
        · exact (List.take_prefix x m).trans hmo
        · exact (List.take_prefix y m').trans hmn
        · simp only [List.length_take]; omega
        · rw [← List.take_append_drop x m] at hmo
          have := (prefix_drop hmo).2
          rwa [List.length_take_of_le hx] at this
        · rw [← List.take_append_drop y m'] at hmn
          have := (prefix_drop hmn).2
          rwa [List.length_take_of_le hy] at this
        · simp only [List.length_drop]; omega

/-- **Edit scripts.** The script of two sequences compares them in the shortest way and records
every deletion where it is. -/
theorem script_compares (old new : List α) : Compares old new 0 0 old new (script old new) :=
  conquer_compares old new _ old new 0 0 (List.prefix_refl old) (List.prefix_refl new)
    (Nat.lt_succ_self _)

end LanguageClient.Diff
