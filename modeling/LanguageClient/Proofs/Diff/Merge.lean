import LanguageClient.Proofs.Diff.Compact

/-!
# Merged comparisons

Merging leaves changes that equal items part. A replacement is recorded where
the insertion in it is, which is never wrong; a deletion on its own keeps the
record of the first deletion in it, and has nothing in common with the new
items between there and its place.

* `blocks_remains`: this is what the comparison of two sequences is made of.
-/
namespace LanguageClient.Diff

variable {α : Type}

/-- A block of a merged comparison, at item `o` of the old sequence and item `n` of the new one. -/
def Joins (a b : List α) (o n : Nat) (x : Block) : Prop :=
  match x.kind with
  | .delete => Fits a b o n x ∧ Apart b x.newStart n (x.oldItems a)
  | .replace => x.oldStart = o ∧ x.newStart = n ∧ 0 < x.oldLength ∧ 0 < x.newLength
  | _ => Fits a b o n x

/-- Blocks that lie side by side from `o` and `n` on, and of which no two changes do; `changed`
says whether the block before them is a change. -/
def Merged (a b : List α) : Bool → Nat → Nat → List Block → Prop
  | _, _, _, [] => True
  | changed, o, n, x :: bs => (x.kind ≠ .equal → changed = false) ∧ Joins a b o n x ∧
      Merged a b (decide (x.kind ≠ .equal)) (o + x.oldLength) (n + x.newLength) bs

/-! ## What waits -/

namespace Pending

def blocks (p : Pending) : List Block :=
  p.equal.toList ++ p.delete.toList ++ p.insert.toList

end Pending

/-- Blocks that wait since `o` and `n`: equal items, or a deletion and an insertion. As long as
there is no insertion, the deletion has nothing in common with what is before it. -/
inductive Waits (a b : List α) (o n : Nat) (starts : List Nat) : Pending → Prop
  | equal (k : Nat) :
      Fits a b o n (.equal o n k) → Waits a b o n starts ⟨some (.equal o n k), none, none⟩
  | change (d i : Option Block) :
      (∀ x ∈ d, x.kind = .delete ∧ Fits a b o n x ∧ x.newStart ∈ starts) →
      (∀ x ∈ i, x.kind = .insert ∧ Fits a b o n x) →
      (∀ x ∈ d, i = none → Apart b x.newStart n (x.oldItems a)) →
      Waits a b o n starts ⟨none, d, i⟩

/-- What becomes of the blocks `bs` when they are merged into `cs`. -/
structure MergesTo (a b : List α) (changed : Bool) (o n : Nat) (bs cs : List Block) : Prop where
  merged : Merged a b changed o n cs
  old : oldTotal cs = oldTotal bs
  new : newTotal cs = newTotal bs
  deletions : (deletions cs).Sublist (deletions bs)

variable {a b : List α} {o n : Nat} {starts : List Nat} {p : Pending} {x : Block} {bs : List Block}

theorem MergesTo.cons {cs : List Block} {changed : Bool} (hc : x.kind ≠ .equal → changed = false)
    (hx : Joins a b o n x)
    (h : MergesTo a b (decide (x.kind ≠ .equal)) (o + x.oldLength) (n + x.newLength) bs cs) :
    MergesTo a b changed o n (x :: bs) (x :: cs) where
  merged := ⟨hc, hx, h.merged⟩
  old := by rw [oldTotal_cons, oldTotal_cons, h.old]
  new := by rw [newTotal_cons, newTotal_cons, h.new]
  deletions := by
    by_cases hk : x.kind = .delete
    · rw [deletions_cons_delete hk, deletions_cons_delete hk]
      exact h.deletions.cons_cons _
    · rw [deletions_cons_of_ne hk, deletions_cons_of_ne hk]
      exact h.deletions

/-- A change is written before equal items, or at the end. -/
theorem mergesTo_change {d i : Option Block} {cs : List Block}
    (h : Waits a b o n starts ⟨none, d, i⟩)
    (hcs : ∀ changed, MergesTo a b changed (o + oldTotal (Pending.blocks ⟨none, d, i⟩))
      (n + newTotal (Pending.blocks ⟨none, d, i⟩)) bs cs) :
    MergesTo a b false o n (Pending.blocks ⟨none, d, i⟩ ++ bs)
      (Pending.change ⟨none, d, i⟩ ++ cs) := by
  cases h with
  | change _ _ hd hi hapart =>
    cases d with
    | none =>
      cases i with
      | none => exact hcs false
      | some y =>
        obtain ⟨hk, hf⟩ := hi y rfl
        refine .cons (fun _ => rfl) (by simpa only [Joins, hk] using hf) ?_
        simpa [Pending.blocks] using hcs _
    | some x =>
      obtain ⟨hk, hf, -⟩ := hd x rfl
      cases i with
      | none =>
        refine .cons (fun _ => rfl) ?_ ?_
        · simpa only [Joins, hk] using ⟨hf, hapart x rfl rfl⟩
        · simpa [Pending.blocks] using hcs _
      | some y =>
        obtain ⟨hky, hfy⟩ := hi y rfl
        obtain ⟨ho, hn, hl⟩ := (fits_delete hk).1 hf
        obtain ⟨hon, hno, hln⟩ := (fits_insert hky).1 hfy
        have hrest := hcs true
        simp only [Pending.blocks, Option.toList_none, Option.toList_some, List.nil_append,
          List.cons_append, oldTotal_cons, newTotal_cons, oldTotal_nil, newTotal_nil, hn, hno,
          Nat.zero_add, Nat.add_zero] at hrest
        refine ⟨⟨fun _ => rfl, ⟨ho, hon, hl, hln⟩, hrest.merged⟩, ?_, ?_, ?_⟩
        · simp [Pending.blocks, Pending.change, hrest.old, hno]
        · simp [Pending.blocks, Pending.change, hrest.new, hn]
        · have hno' : y.kind ≠ .delete := by simp [hky]
          simpa [Pending.blocks, Pending.change, deletions, hk, hky] using
            hrest.deletions.cons x.newStart

/-- A deletion joins the change that waits. -/
theorem waits_delete {d i : Option Block} (h : Waits a b o n starts ⟨none, d, i⟩)
    (hk : x.kind = .delete)
    (hf : Fits a b (o + oldTotal (Pending.blocks ⟨none, d, i⟩))
      (n + newTotal (Pending.blocks ⟨none, d, i⟩)) x)
    (hc : ∀ s ∈ x.newStart :: starts,
      Apart b s (n + newTotal (Pending.blocks ⟨none, d, i⟩)) (x.oldItems a)) :
    Waits a b o n (x.newStart :: starts) ⟨none, Pending.join d x x.oldLength, i⟩ := by
  cases h with
  | change _ _ hd hi hapart =>
    obtain ⟨ho, hn, hl⟩ := (fits_delete hk).1 hf
    have hiold : oldTotal i.toList = 0 := by
      cases i with
      | none => rfl
      | some y => simpa using ((fits_insert (hi y rfl).1).1 (hi y rfl).2).2.1
    cases d with
    | none =>
      refine .change _ _ ?_ hi ?_
      · rintro _ ⟨⟩
        refine ⟨hk, (fits_delete hk).2 ⟨?_, hn, hl⟩, List.mem_cons_self ..⟩
        simpa [Pending.blocks, hiold] using ho
      · rintro _ ⟨⟩ rfl
        exact hc x.newStart (List.mem_cons_self ..)
    | some w =>
      obtain ⟨hkw, hfw, hw⟩ := hd w rfl
      obtain ⟨how, hnw, hlw⟩ := (fits_delete hkw).1 hfw
      have hjoin : w.lengthen x.oldLength = { w with oldLength := w.oldLength + x.oldLength } := by
        simp [Block.lengthen, hkw]
      have hox : x.oldStart = o + w.oldLength := by simpa [Pending.blocks, hiold] using ho
      refine .change _ _ ?_ hi ?_
      · rintro _ ⟨⟩
        rw [hjoin]
        refine ⟨hkw, (fits_delete ?_).2 ⟨how, hnw, Nat.add_pos_left hlw _⟩,
          List.mem_cons_of_mem _ hw⟩
        exact hkw
      · rintro _ ⟨⟩ rfl
        rw [hjoin]
        rw [oldItems_fuse (by rw [hox, how])]
        refine (hapart w rfl rfl).append ?_
        simpa [Pending.blocks, hnw] using hc w.newStart (List.mem_cons_of_mem _ hw)

/-- An insertion joins the change that waits. -/
theorem waits_insert {d i : Option Block} (h : Waits a b o n starts ⟨none, d, i⟩)
    (hk : x.kind = .insert)
    (hf : Fits a b (o + oldTotal (Pending.blocks ⟨none, d, i⟩))
      (n + newTotal (Pending.blocks ⟨none, d, i⟩)) x) :
    Waits a b o n starts ⟨none, d, Pending.join i x x.newLength⟩ := by
  cases h with
  | change _ _ hd hi hapart =>
    obtain ⟨hn, ho, hl⟩ := (fits_insert hk).1 hf
    have hdnew : newTotal d.toList = 0 := by
      cases d with
      | none => rfl
      | some y => simpa using ((fits_delete (hd y rfl).1).1 (hd y rfl).2.1).2.1
    cases i with
    | none =>
      refine .change _ _ hd ?_ fun _ _ h => by cases h
      rintro _ ⟨⟩
      refine ⟨hk, (fits_insert hk).2 ⟨?_, ho, hl⟩⟩
      simpa [Pending.blocks, hdnew] using hn
    | some w =>
      obtain ⟨hkw, hfw⟩ := hi w rfl
      obtain ⟨hnw, how, hlw⟩ := (fits_insert hkw).1 hfw
      have hjoin : w.lengthen x.newLength = { w with newLength := w.newLength + x.newLength } := by
        simp [Block.lengthen, hkw]
      refine .change _ _ hd ?_ fun _ _ h => by cases h
      rintro _ ⟨⟩
      rw [hjoin]
      refine ⟨hkw, (fits_insert ?_).2 ⟨hnw, how, Nat.add_pos_left hlw _⟩⟩
      exact hkw

/-- What waits takes a block in. -/
structure Takes (p : Pending) (x : Block) (p' : Pending) : Prop where
  old : oldTotal p'.blocks = oldTotal p.blocks + x.oldLength
  new : newTotal p'.blocks = newTotal p.blocks + x.newLength
  deletions : (deletions p'.blocks).Sublist (deletions (p.blocks ++ [x]))

theorem Takes.mergesTo {p' : Pending} {cs : List Block} {changed : Bool} (ht : Takes p x p')
    (h : MergesTo a b changed o n (p'.blocks ++ bs) cs) :
    MergesTo a b changed o n (p.blocks ++ x :: bs) cs where
  merged := h.merged
  old := by rw [h.old, oldTotal_append, ht.old, oldTotal_append, oldTotal_cons, Nat.add_assoc]
  new := by rw [h.new, newTotal_append, ht.new, newTotal_append, newTotal_cons, Nat.add_assoc]
  deletions := by
    rw [List.append_cons, deletions_append]
    have hd := h.deletions
    rw [deletions_append] at hd
    exact hd.trans (ht.deletions.append_right _)

theorem deletions_of_inserts {i : Option Block} (h : ∀ y ∈ i, y.kind = .insert) :
    deletions i.toList = [] := by
  cases i with
  | none => rfl
  | some y => exact deletions_cons_of_ne (by simp [h y rfl]) []

theorem takes_delete {d i : Option Block} (hd : ∀ y ∈ d, y.kind = .delete)
    (hi : ∀ y ∈ i, y.kind = .insert) (hk : x.kind = .delete) (hn : x.newLength = 0) :
    Takes ⟨none, d, i⟩ x ⟨none, Pending.join d x x.oldLength, i⟩ := by
  have hdi := deletions_of_inserts hi
  cases d with
  | none =>
    refine ⟨?_, ?_, ?_⟩
    · simp [Pending.blocks, Pending.join, Nat.add_comm]
    · simp [Pending.blocks, Pending.join, Nat.add_comm]
    · simp [Pending.blocks, Pending.join, deletions_cons_delete hk, hdi]
  | some w =>
    have hkw := hd w rfl
    refine ⟨?_, ?_, ?_⟩
    · simp [Pending.blocks, Pending.join, Block.lengthen, hkw, Nat.add_right_comm]
    · simp [Pending.blocks, Pending.join, Block.lengthen, hkw, hn]
    · simp [Pending.blocks, Pending.join, Block.lengthen, deletions_cons_delete, hk, hkw, hdi]

theorem takes_insert {d i : Option Block} (hi : ∀ y ∈ i, y.kind = .insert)
    (hk : x.kind = .insert) (ho : x.oldLength = 0) :
    Takes ⟨none, d, i⟩ x ⟨none, d, Pending.join i x x.newLength⟩ := by
  cases i with
  | none => refine ⟨?_, ?_, ?_⟩ <;> simp [Pending.blocks, Pending.join]
  | some w =>
    have hkw := hi w rfl
    refine ⟨?_, ?_, ?_⟩
    · simp [Pending.blocks, Pending.join, Block.lengthen, hkw, ho]
    · simp [Pending.blocks, Pending.join, Block.lengthen, hkw, Nat.add_assoc]
    · simp [Pending.blocks, Pending.join, Block.lengthen, deletions_cons_of_ne, hk, hkw]

/-! ## Merging -/

/-- Some blocks are merged well behind any that wait. -/
def Merges (a b : List α) (bs : List Block) : Prop :=
  ∀ o n starts p, Waits a b o n starts p →
    Tiles a b (o + oldTotal p.blocks) (n + newTotal p.blocks) bs →
    Clear a b (n + newTotal p.blocks) starts bs → ∀ changed, (p.equal = none → changed = false) →
    MergesTo a b changed o n (p.blocks ++ bs) (mergeFrom p bs)

theorem merges_nil : Merges a b [] := by
  intro o n starts p hw _ _ changed hchanged
  cases hw with
  | equal k hf =>
    exact .cons (by simp) hf ⟨trivial, rfl, rfl, .refl _⟩
  | change d i hd hi hapart =>
    obtain rfl := hchanged rfl
    simpa [mergeFrom] using mergesTo_change (b := b) (.change d i hd hi hapart) fun changed =>
      (⟨trivial, rfl, rfl, .refl _⟩ : MergesTo a b changed _ _ [] [])

theorem merges_cons_change (ih : Merges a b bs) {d i : Option Block}
    (hw : Waits a b o n starts ⟨none, d, i⟩)
    (ht : Tiles a b (o + oldTotal (Pending.blocks ⟨none, d, i⟩))
      (n + newTotal (Pending.blocks ⟨none, d, i⟩)) (x :: bs))
    (hc : Clear a b (n + newTotal (Pending.blocks ⟨none, d, i⟩)) starts (x :: bs)) :
    MergesTo a b false o n (Pending.blocks ⟨none, d, i⟩ ++ x :: bs)
      (mergeFrom ⟨none, d, i⟩ (x :: bs)) := by
  obtain ⟨hf, ht⟩ := ht
  obtain ⟨hcx, hc⟩ := hc
  have ⟨hd, hi⟩ : (∀ y ∈ d, y.kind = .delete) ∧ ∀ y ∈ i, y.kind = .insert := by
    cases hw with
    | change _ _ hd hi _ => exact ⟨fun y hy => (hd y hy).1, fun y hy => (hi y hy).1⟩
  cases hk : x.kind with
  | equal =>
    simp only [mergeFrom, hk]
    refine mergesTo_change hw fun changed => ?_
    obtain ⟨k, rfl⟩ := exists_equal hk hf
    rw [recorded_of_equal hk] at hc
    refine ih _ _ [] ⟨some _, none, none⟩ (.equal k hf) ?_ ?_ changed (by simp)
    · simpa [Pending.blocks, Nat.add_assoc] using ht
    · simpa [Pending.blocks, Nat.add_assoc] using hc
  | delete =>
    simp only [mergeFrom, hk]
    have htakes := takes_delete hd hi hk ((fits_delete hk).1 hf).2.1
    refine htakes.mergesTo (ih _ _ _ _ (waits_delete hw hk hf (hcx hk)) ?_ ?_ false fun _ => rfl)
    · rw [htakes.old, htakes.new, ← Nat.add_assoc, ← Nat.add_assoc]
      exact ht
    · rw [htakes.new, ← Nat.add_assoc, ← recorded_of_delete hk]
      exact hc
  | insert =>
    simp only [mergeFrom, hk]
    have htakes := takes_insert (d := d) hi hk ((fits_insert hk).1 hf).2.1
    refine htakes.mergesTo (ih _ _ _ _ (waits_insert hw hk hf) ?_ ?_ false fun _ => rfl)
    · rw [htakes.old, htakes.new, ← Nat.add_assoc, ← Nat.add_assoc]
      exact ht
    · rw [recorded_of_insert hk] at hc
      rw [htakes.new, ← Nat.add_assoc]
      exact hc
  | replace => simp [Fits, hk] at hf

theorem merges_cons_equal (ih : Merges a b bs) {k : Nat} (hf : Fits a b o n (.equal o n k))
    (ht : Tiles a b (o + k) (n + k) (x :: bs)) (hc : Clear a b (n + k) starts (x :: bs))
    (changed : Bool) :
    MergesTo a b changed o n (.equal o n k :: x :: bs)
      (mergeFrom ⟨some (.equal o n k), none, none⟩ (x :: bs)) := by
  by_cases hk : x.kind = .equal
  · obtain ⟨l, rfl⟩ := exists_equal hk ht.1
    rw [clear_equal_cons] at hc
    simp only [mergeFrom, kind_equal]
    have hjoin : (Block.equal o n k).lengthen l = .equal o n (k + l) := by
      simp [Block.lengthen, Block.equal]
    have hfuse := (refits_equal_equal (q := bs) ⟨hf, ht⟩).tiles
    have htakes : Takes ⟨some (.equal o n k), none, none⟩ (.equal (o + k) (n + k) l)
        ⟨some (.equal o n (k + l)), none, none⟩ := by
      refine ⟨?_, ?_, ?_⟩ <;> simp [Pending.blocks]
    refine htakes.mergesTo ?_
    simp only [Pending.join, oldLength_equal, hjoin, Pending.change, List.nil_append]
    refine ih _ _ [] ⟨some _, none, none⟩ (.equal _ hfuse.1) ?_ ?_ changed (by simp)
    · simpa [Pending.blocks] using hfuse.2
    · simpa [Pending.blocks, Nat.add_assoc] using hc
  · -- The equal items are written, and nothing waits for the change.
    have hw : Waits a b (o + k) (n + k) starts Pending.none :=
      .change none none (by simp) (by simp) (by simp)
    have hrest := merges_cons_change ih hw ht hc
    have hwrite : mergeFrom ⟨some (.equal o n k), none, none⟩ (x :: bs) =
        .equal o n k :: mergeFrom .none (x :: bs) := by
      cases hx : x.kind with
      | equal => exact absurd hx hk
      | delete => simp [mergeFrom, hx, Pending.none]
      | insert => simp [mergeFrom, hx, Pending.none]
      | replace => simp [mergeFrom, hx, Pending.none, Pending.change]
    rw [hwrite]
    exact .cons (by simp) hf hrest

theorem merges (bs : List Block) : Merges a b bs := by
  induction bs with
  | nil => exact merges_nil
  | cons x bs ih =>
    intro o n starts p hw ht hc changed hchanged
    cases hw with
    | equal k hf =>
      simp only [Pending.blocks, Option.toList_some, Option.toList_none, List.append_nil,
        oldTotal_cons, newTotal_cons, oldTotal_nil, newTotal_nil, oldLength_equal,
        newLength_equal, Nat.add_zero] at ht hc
      exact merges_cons_equal ih hf ht hc changed
    | change d i hd hi hapart =>
      obtain rfl := hchanged rfl
      exact merges_cons_change ih (.change d i hd hi hapart) ht hc

/-! ## What a block of a comparison takes -/

theorem Joins.fits (h : Joins a b o n x) (hk : x.kind = .equal) : Fits a b o n x := by
  simpa only [Joins, hk] using h

theorem Joins.deleted (h : Joins a b o n x) (hk : x.kind = .delete) :
    x.oldStart = o ∧ x.newLength = 0 ∧ 0 < x.oldLength ∧ Apart b x.newStart n (x.oldItems a) := by
  simp only [Joins, hk] at h
  obtain ⟨ho, hn, hl⟩ := (fits_delete hk).1 h.1
  exact ⟨ho, hn, hl, h.2⟩

theorem Joins.inserted (h : Joins a b o n x) (hk : x.kind = .insert) :
    x.newStart = n ∧ x.oldLength = 0 ∧ 0 < x.newLength := by
  simp only [Joins, hk] at h
  exact (fits_insert hk).1 h

theorem Joins.replaced (h : Joins a b o n x) (hk : x.kind = .replace) :
    x.oldStart = o ∧ x.newStart = n ∧ 0 < x.oldLength ∧ 0 < x.newLength := by
  simpa only [Joins, hk] using h

theorem Joins.oldItems (h : Joins a b o n x) : x.oldItems a = stretch a o x.oldLength := by
  unfold Block.oldItems stretch
  cases hk : x.kind with
  | equal => rw [((fits_equal hk).1 (h.fits hk)).1]
  | delete => rw [(h.deleted hk).1]
  | insert => simp [(h.inserted hk).2.1]
  | replace => rw [(h.replaced hk).1]

theorem Joins.newItems (h : Joins a b o n x) : x.newItems b = stretch b n x.newLength := by
  unfold Block.newItems stretch
  cases hk : x.kind with
  | equal => rw [((fits_equal hk).1 (h.fits hk)).2.1]
  | delete => simp [(h.deleted hk).2.1]
  | insert => rw [(h.inserted hk).1]
  | replace => rw [(h.replaced hk).2.1]

theorem Joins.pos (h : Joins a b o n x) : 0 < x.oldLength + x.newLength := by
  cases hk : x.kind with
  | equal => exact Nat.add_pos_left ((fits_equal hk).1 (h.fits hk)).2.2.2.2 _
  | delete => exact Nat.add_pos_left (h.deleted hk).2.2.1 _
  | insert => exact Nat.add_pos_right _ (h.inserted hk).2.2
  | replace => exact Nat.add_pos_left (h.replaced hk).2.2.1 _

/-- Only a deletion may be recorded out of its place. -/
theorem Joins.newStart (h : Joins a b o n x) (hp : x.kind = .delete → x.newStart = n) :
    x.newStart = n := by
  cases hk : x.kind with
  | equal => exact ((fits_equal hk).1 (h.fits hk)).2.1
  | delete => exact hp hk
  | insert => exact (h.inserted hk).1
  | replace => exact (h.replaced hk).2.1

/-! ## What is left of a comparison -/

/-- Merged blocks that reach from `o` and `n` to the ends of both sequences. -/
structure Remains (a b : List α) (changed : Bool) (o n : Nat) (bs : List Block) : Prop where
  merged : Merged a b changed o n bs
  old : o + oldTotal bs = a.length
  new : n + newTotal bs = b.length

theorem Remains.tail {changed : Bool} (h : Remains a b changed o n (x :: bs)) :
    Remains a b (decide (x.kind ≠ .equal)) (o + x.oldLength) (n + x.newLength) bs where
  merged := h.merged.2.2
  old := by
    rw [Nat.add_assoc, ← oldTotal_cons]
    exact h.old
  new := by
    rw [Nat.add_assoc, ← newTotal_cons]
    exact h.new

/-- Behind a change comes the end, or items of both sequences. -/
theorem Remains.nil_or (h : Remains a b true o n bs) :
    bs = [] ∨ o < a.length ∧ n < b.length := by
  cases bs with
  | nil => exact .inl rfl
  | cons x bs =>
    have ⟨hx, hj, _⟩ := h.merged
    by_cases hk : x.kind = .equal
    · obtain ⟨k, rfl⟩ := exists_equal hk (hj.fits hk)
      have hpos := hj.pos
      have ho := h.old
      have hn := h.new
      simp only [oldTotal_cons, newTotal_cons, oldLength_equal, newLength_equal] at ho hn hpos
      exact .inr ⟨by omega, by omega⟩
    · cases hx hk

/-- Where changes are recorded, if the deletions are not recorded before `m`: none lies before `n`,
and the first of them not at `n` behind a change. -/
theorem Merged.le_newStart {changed : Bool} {m : Nat} (h : Merged a b changed o n bs)
    (hm : m ≤ n + changed.toNat) (hd : ∀ s ∈ deletions bs, m ≤ s) :
    ∀ x ∈ bs, x.kind ≠ .equal → m ≤ x.newStart := by
  induction bs generalizing changed o n with
  | nil => simp
  | cons y bs ih =>
    obtain ⟨hy, hj, h⟩ := h
    have hpos := hj.pos
    intro x hx hk
    by_cases hkd : x.kind = .delete
    · exact hd _ (List.mem_map_of_mem (List.mem_filter.2 ⟨hx, by simpa using hkd⟩))
    rcases List.mem_cons.1 hx with rfl | hx
    · rw [hy hk, Bool.toNat_false, Nat.add_zero] at hm
      rwa [hj.newStart fun hkd' => absurd hkd' hkd]
    · refine ih h ?_ (fun s hs => hd s ?_) x hx hk
      · by_cases hyk : y.kind = .equal
        · have hl := ((fits_equal hyk).1 (hj.fits hyk)).2.2.1
          have := Bool.toNat_le changed
          omega
        · rw [hy hyk, Bool.toNat_false] at hm
          omega
      · rw [← List.singleton_append, deletions_append]
        exact List.mem_append_right _ hs

/-- **Comparisons.** The comparison of two sequences consists of blocks that lie side by side from
end to end of both, no two changes next to each other, with the deletions recorded in order. -/
theorem blocks_remains [DecidableEq α] (a b : List α) :
    Remains a b false 0 0 (blocks a b) ∧ (deletions (blocks a b)).Pairwise (· ≤ ·) := by
  obtain ⟨⟨ht, ho, hn⟩, -, hc, hsorted⟩ := compact_sound a b
  have hm := merges _ 0 0 [] .none (.change none none (by simp) (by simp) (by simp))
    (by simpa [Pending.blocks, Pending.none] using ht)
    (by simpa [Pending.blocks, Pending.none] using hc) false fun _ => rfl
  refine ⟨⟨hm.merged, ?_, ?_⟩, hsorted.sublist hm.deletions⟩
  · rw [Nat.zero_add]
    exact hm.old.trans ho
  · rw [Nat.zero_add]
    exact hm.new.trans hn

end LanguageClient.Diff
