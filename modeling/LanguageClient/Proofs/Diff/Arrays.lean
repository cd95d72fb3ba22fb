import Mathlib
import LanguageClient.Diff.Merge
import LanguageClient.Proofs.Diff.Front

/-!
# Searches that share two arrays

A search for the middle may keep its furthest columns in two arrays, one for
each direction, with a column in the cell of its diagonal, and all searches of
a comparison may share them. No search reads what an earlier one has left
there: next to a diagonal stand the cells that the step before has filled, and
in the other array only diagonals of its last front are looked up.

* `middleIn_eq`: whatever the arrays hold, the middle is the one of the fronts.
* `blocksIn_eq`: and the comparison is the same.
-/
namespace LanguageClient.Diff

/-- The furthest columns of a search, by their diagonals. -/
abbrev Cells := Int → Nat

/-- The cells of the search from the start and of the search from the end. -/
structure Arrays where
  forward : Cells
  backward : Cells

/-- The column at which diagonal `k` starts in step `d`. -/
def startIn (v : Cells) (d : Nat) (k : Int) : Nat :=
  if k = -d ∨ (k ≠ d ∧ v (k - 1) < v (k + 1)) then v (k + 1) else v (k - 1) + 1

variable {α : Type} [DecidableEq α]

/-- A step of a search on `count` diagonals from `k` downwards: the cells then, and the point where
the other search is met, of which `met?` is asked on each diagonal with its first and its furthest
column. -/
def sweep (a b : List α) (d : Nat) (met? : Int × Nat × Nat → Option (Nat × Nat)) :
    Nat → Int → Cells → Cells × Option (Nat × Nat)
  | 0, _, v => (v, none)
  | count + 1, k, v =>
    let x := startIn v d k
    let t := extend a b k x
    match met? (k, x, t) with
    | some p => (Function.update v k t, some p)
    | none => sweep a b d met? count (k - 2) (Function.update v k t)

/-- Where the search from the start, in step `d`, meets the cells of the other one. -/
def metForward? (n : Nat) (delta : Int) (d : Nat) (backward : Cells) :
    Int × Nat × Nat → Option (Nat × Nat)
  | (k, x, t) =>
    if delta % 2 ≠ 0 ∧ (k - delta).natAbs + 1 ≤ d ∧ n ≤ t + backward (-(k - delta)) then
      some (x, rowOn k x)
    else none

/-- Where the search from the end, in step `d`, meets the cells of the other one. -/
def metBackward? (n m : Nat) (delta : Int) (d : Nat) (forward : Cells) :
    Int × Nat × Nat → Option (Nat × Nat)
  | (k, _, t) =>
    if delta % 2 = 0 ∧ (k - delta).natAbs ≤ d ∧ n ≤ t + forward (-(k - delta)) then
      some (n - t, m - rowOn k t)
    else none

/-- The search in the arrays from step `d` on, for at most `steps` more steps. -/
def searchIn (a b : List α) (delta : Int) : Nat → Nat → Arrays → Option (Nat × Nat) × Arrays
  | 0, _, v => (none, v)
  | steps + 1, d, v =>
    match sweep a b d (metForward? a.length delta d v.backward) (d + 1) d v.forward with
    | (forward, some p) => (some p, ⟨forward, v.backward⟩)
    | (forward, none) =>
      match sweep a.reverse b.reverse d (metBackward? a.length b.length delta d forward) (d + 1) d
        v.backward with
      | (backward, some p) => (some p, ⟨forward, backward⟩)
      | (backward, none) => searchIn a b delta steps (d + 1) ⟨forward, backward⟩

/-- The middle of two sequences, looked for in the arrays. -/
def middleIn (a b : List α) (v : Arrays) : Option (Nat × Nat) × Arrays :=
  searchIn a b ((a.length : Int) - (b.length : Int)) ((a.length + b.length + 1) / 2 + 1) 0
    ⟨Function.update v.forward 1 0, Function.update v.backward 1 0⟩

/-- `conquer` with the arrays handed from one search to the next. -/
def conquerIn : Nat → List α → List α → Nat → Nat → Arrays → List Block × Arrays
  | 0, a, b, i, j, v => ([.delete i a.length j, .insert (i + a.length) j b.length], v)
  | fuel + 1, a, b, i, j, v =>
    let p := commonPrefix a b
    let a := a.drop p
    let b := b.drop p
    let s := commonSuffix a b
    let a := a.take (a.length - s)
    let b := b.take (b.length - s)
    let i := i + p
    let j := j + p
    let head := if p = 0 then [] else [Block.equal (i - p) (j - p) p]
    let tail := if s = 0 then [] else [Block.equal (i + a.length) (j + b.length) s]
    let (body, v) :=
      if a.isEmpty then
        (if b.isEmpty then [] else [Block.insert i j b.length], v)
      else if b.isEmpty then ([Block.delete i a.length j], v)
      else
        match middleIn a b v with
        | (some (x, y), v) =>
          let (before, v) := conquerIn fuel (a.take x) (b.take y) i j v
          let (after, v) := conquerIn fuel (a.drop x) (b.drop y) (i + x) (j + y) v
          (before ++ after, v)
        | (none, v) => ([.delete i a.length j, .insert (i + a.length) j b.length], v)
    (head ++ body ++ tail, v)

/-- The comparison of two sequences, with arrays that hold `v` to begin with. -/
def blocksIn (v : Arrays) (old new : List α) : List Block :=
  merge (compact old new (conquerIn (old.length + new.length + 1) old new 0 0 v).1)

/-! ## Fronts in cells -/

/-- The cells hold a front: its columns, from diagonal `k` downwards. -/
def Holds (v : Cells) (k : Int) (f : List Nat) : Prop :=
  OnDiagonals (fun j x => v j = x) k f

/-- What is written above a front leaves it as it is. -/
theorem Holds.update {v : Cells} {k j : Int} {f : List Nat} (h : Holds v k f) (hj : k < j)
    (t : Nat) : Holds (Function.update v j t) k f := by
  induction f generalizing k with
  | nil => trivial
  | cons x f ih =>
    refine ⟨?_, ih h.2 (by omega)⟩
    show Function.update v j t k = x
    rw [Function.update_of_ne (by omega)]
    exact h.1

/-- The cell of a diagonal of a front. -/
theorem Holds.columnOn {v : Cells} {d : Nat} {f : List Nat} (h : Holds v d f)
    (hl : f.length = d + 1) {j : Int} (hj : j.natAbs ≤ d) (hp : (d - j) % 2 = 0) :
    v j = columnOn d f j := by
  have ht := OnDiagonals.getD h (i := (((d : Int) - j) / 2).toNat) (by omega)
  rwa [show (d : Int) - 2 * ((((d : Int) - j) / 2).toNat : Int) = j by omega] at ht

/-- The diagonals of a front are every second one. -/
theorem diagonal_of_mem_front {a b : List α} {s : List Nat} {k : Int} {e : Int × Nat × Nat}
    (h : e ∈ front a b k s) : (k - e.1) % 2 = 0 := by
  induction s generalizing k with
  | nil => cases h
  | cons x s ih =>
    rcases List.mem_cons.1 h with rfl | h
    · show (k - k) % 2 = 0
      omega
    · have := ih h
      omega

/-- What a step does from the cells of the step before: it meets the other search where the front
does, and otherwise fills the cells with the front and leaves those above it. -/
structure Sweeps (a b : List α) (met? : Int × Nat × Nat → Option (Nat × Nat)) (k : Int)
    (s : List Nat) (v : Cells) (result : Cells × Option (Nat × Nat)) : Prop where
  met : result.2 = (front a b k s).findSome? met?
  filled : result.2 = none → Holds result.1 k (columns (front a b k s))
  above : ∀ j, k < j → result.1 j = v j

theorem Sweeps.cons {a b : List α} {met? : Int × Nat × Nat → Option (Nat × Nat)} {k : Int}
    {x : Nat} {s : List Nat} {v : Cells} {d count : Nat} (hx : startIn v d k = x)
    (h : Sweeps a b met? (k - 2) s (Function.update v k (extend a b k x))
      (sweep a b d met? count (k - 2) (Function.update v k (extend a b k x)))) :
    Sweeps a b met? k (x :: s) v (sweep a b d met? (count + 1) k v) := by
  have habove : ∀ j, k < j → Function.update v k (extend a b k x) j = v j :=
    fun j hj => Function.update_of_ne (by omega) _ _
  simp only [sweep, hx]
  cases hm : met? (k, x, extend a b k x) with
  | some p =>
    refine ⟨?_, fun hn => ?_, habove⟩
    · simp [front, hm]
    · exact absurd hn (Option.some_ne_none p)
  | none =>
    refine ⟨?_, fun hn => ⟨?_, h.filled hn⟩, fun j hj => ?_⟩
    · show (sweep a b d met? count (k - 2) _).2 = _
      rw [h.met]
      simp [front, hm]
    · exact (h.above k (by omega)).trans (Function.update_self ..)
    · exact (h.above j (by omega)).trans (habove j hj)

/-- The diagonals below the first one. -/
theorem sweeps_startsAfter (a b : List α) (met? : Int × Nat × Nat → Option (Nat × Nat)) {d : Nat}
    {rest : List Nat} {k : Int} {x : Nat} {v : Cells} (hx : v (k + 1) = x)
    (hrest : Holds v (k - 1) rest) (hd : k < d) (hk : k + d = 2 * rest.length) :
    Sweeps a b met? k (startsAfter x rest) v (sweep a b d met? (rest.length + 1) k v) := by
  induction rest generalizing k x v with
  | nil =>
    rw [List.length_nil] at hk
    refine .cons ?_ ⟨rfl, fun _ => trivial, fun _ _ => rfl⟩
    rw [startIn, if_pos (.inl (by omega)), hx]
  | cons y rest ih =>
    obtain ⟨hy, hrest⟩ := hrest
    rw [List.length_cons] at hk
    refine .cons ?_ (ih ?_ ?_ (by omega) (by omega))
    · rw [startIn, hx, hy]
      have hne : k ≠ -d := by omega
      have hne' : k ≠ d := by omega
      simp [hne, hne']
    · rw [Function.update_of_ne (by omega), show k - 2 + 1 = k - 1 by omega]
      exact hy
    · rw [show k - 2 - 1 = k - 1 - 2 by omega]
      exact Holds.update hrest (by omega) _

/-- The cells before step `d`: those of the front before, or of the corner. -/
def Ready (v : Cells) (d : Nat) (f : List Nat) : Prop :=
  (d = 0 ∧ f = [] ∧ v 1 = 0) ∨ ∃ e, d = e + 1 ∧ Holds v e f ∧ f.length = e + 1

theorem Ready.length {v : Cells} {d : Nat} {f : List Nat} (h : Ready v d f) : f.length = d := by
  rcases h with ⟨rfl, rfl, -⟩ | ⟨e, rfl, -, hl⟩
  · rfl
  · exact hl

/-- A whole step. -/
theorem Ready.sweeps {v : Cells} {d : Nat} {f : List Nat} (h : Ready v d f) (a b : List α)
    (met? : Int × Nat × Nat → Option (Nat × Nat)) :
    Sweeps a b met? d (starts f) v (sweep a b d met? (d + 1) d v) := by
  rcases h with ⟨rfl, rfl, hone⟩ | ⟨e, rfl, hf, hl⟩
  · refine .cons ?_ ⟨rfl, fun _ => trivial, fun _ _ => rfl⟩
    simpa [startIn] using hone
  · cases f with
    | nil => cases hl
    | cons x rest =>
      obtain ⟨hx, hrest⟩ := hf
      have hl : rest.length = e := Nat.succ.inj hl
      have he : ((e + 1 : Nat) : Int) = e + 1 := rfl
      have hstart : startIn v (e + 1) ((e + 1 : Nat) : Int) = x + 1 := by
        rw [startIn, if_neg (by omega), he, Int.add_sub_cancel, hx]
      refine .cons hstart ?_
      rw [← hl]
      refine sweeps_startsAfter a b met? ?_ ?_ (by omega) (by omega)
      · rw [Function.update_of_ne (by omega), hl, he, show (e : Int) + 1 - 2 + 1 = e by omega]
        exact hx
      · rw [hl, he, show (e : Int) + 1 - 2 - 1 = e - 2 by omega]
        exact Holds.update hrest (by omega) _

/-- The cells after a step that met nothing are ready for the next one. -/
theorem Ready.next {v : Cells} {d : Nat} {f : List Nat} (h : Ready v d f) {a b : List α}
    {met? : Int × Nat × Nat → Option (Nat × Nat)} {result : Cells × Option (Nat × Nat)}
    (hs : Sweeps a b met? d (starts f) v result) (hn : result.2 = none) :
    Ready result.1 (d + 1) (columns (front a b d (starts f))) :=
  .inr ⟨d, rfl, hs.filled hn, by rw [length_columns_front, length_starts, h.length]⟩

/-! ## The search -/

theorem map_find?_eq_findSome? {β γ : Type} {p : β → Bool} {g : β → γ} {f : β → Option γ}
    {l : List β} (h : ∀ x ∈ l, f x = if p x then some (g x) else none) :
    (l.find? p).map g = l.findSome? f := by
  induction l with
  | nil => rfl
  | cons x l ih =>
    rw [List.findSome?_cons, h x List.mem_cons_self, List.find?_cons,
      ← ih fun y hy => h y (List.mem_cons_of_mem _ hy)]
    cases p x <;> rfl

theorem findSome?_metForward? {n : Nat} {delta : Int} {d : Nat} {v : Cells} {other : List Nat}
    (h : Ready v d other) (a b : List α) {s : List Nat} :
    (front a b d s).findSome? (metForward? n delta d v) =
      if delta % 2 ≠ 0 then meetForward? n delta d (front a b d s) other else none := by
  by_cases hodd : delta % 2 ≠ 0
  · rw [if_pos hodd]
    refine (map_find?_eq_findSome? ?_).symm
    rintro ⟨k, x, t⟩ he
    have hk : (d - k) % 2 = 0 := diagonal_of_mem_front he
    simp only [metForward?, hodd, true_and, decide_eq_true_eq, not_false_eq_true, ne_eq]
    refine if_congr (and_congr_right fun hnear => ?_) rfl rfl
    -- in its first step the search has nothing to meet
    rcases h with ⟨rfl, -, -⟩ | ⟨e, rfl, hother, hl⟩
    · omega
    · rw [hother.columnOn hl (by omega) (by omega), Int.neg_sub, Nat.add_sub_cancel]
  · rw [if_neg hodd, List.findSome?_eq_none_iff]
    rintro ⟨k, x, t⟩ -
    exact if_neg fun h => hodd h.1

theorem findSome?_metBackward? {n m : Nat} {delta : Int} {d : Nat} {v : Cells} {other : List Nat}
    (h : Holds v d other) (hl : other.length = d + 1) (a b : List α) {s : List Nat} :
    (front a b d s).findSome? (metBackward? n m delta d v) =
      if delta % 2 = 0 then meetBackward? n m delta d (front a b d s) other else none := by
  by_cases heven : delta % 2 = 0
  · rw [if_pos heven]
    refine (map_find?_eq_findSome? ?_).symm
    rintro ⟨k, x, t⟩ he
    have hk : (d - k) % 2 = 0 := diagonal_of_mem_front he
    simp only [metBackward?, heven, true_and, decide_eq_true_eq]
    refine if_congr (and_congr_right fun hnear => ?_) rfl rfl
    rw [h.columnOn hl (by omega) (by omega), Int.neg_sub]
  · rw [if_neg heven, List.findSome?_eq_none_iff]
    rintro ⟨k, x, t⟩ -
    exact if_neg fun h => heven h.1

theorem searchIn_eq (a b : List α) (delta : Int) (steps : Nat) :
    ∀ {d : Nat} {v : Arrays} {forward backward : List Nat}, Ready v.forward d forward →
      Ready v.backward d backward →
      (searchIn a b delta steps d v).1 = search a b delta steps d forward backward := by
  induction steps with
  | zero => exact fun _ _ => rfl
  | succ steps ih =>
    intro d v forward backward hf hb
    have hsweep := hf.sweeps a b (metForward? a.length delta d v.backward)
    have hmet := hsweep.met
    rw [findSome?_metForward? hb] at hmet
    unfold searchIn search
    generalize sweep a b d (metForward? a.length delta d v.backward) (d + 1) d v.forward =
      result at hsweep hmet ⊢
    obtain ⟨cells, found⟩ := result
    simp only at hmet ⊢
    rw [← hmet]
    cases found with
    | some p => rfl
    | none =>
      have hnext := hf.next hsweep rfl
      obtain ⟨e, he, hholds, hl⟩ := hnext.resolve_left fun h => Nat.succ_ne_zero d h.1
      obtain rfl : d = e := Nat.succ.inj he
      have hsweep' := hb.sweeps a.reverse b.reverse (metBackward? a.length b.length delta d cells)
      have hmet' := hsweep'.met
      rw [findSome?_metBackward? hholds hl] at hmet'
      simp only
      generalize sweep a.reverse b.reverse d (metBackward? a.length b.length delta d cells)
        (d + 1) d v.backward = result' at hsweep' hmet' ⊢
      obtain ⟨cells', found'⟩ := result'
      simp only at hmet' ⊢
      rw [← hmet']
      cases found' with
      | some p => rfl
      | none => exact ih hnext (hb.next hsweep' rfl)

/-- Whatever earlier searches have left in the arrays, the middle is the one of the fronts. -/
theorem middleIn_eq (a b : List α) (v : Arrays) : (middleIn a b v).1 = middle? a b :=
  searchIn_eq a b _ _ (.inl ⟨rfl, rfl, Function.update_self 1 0 v.forward⟩)
    (.inl ⟨rfl, rfl, Function.update_self 1 0 v.backward⟩)

theorem conquerIn_eq (fuel : Nat) :
    ∀ (a b : List α) (i j : Nat) (v : Arrays),
      (conquerIn fuel a b i j v).1 = conquer fuel a b i j := by
  induction fuel with
  | zero => exact fun _ _ _ _ _ => rfl
  | succ fuel ih =>
    intro a b i j v
    unfold conquerIn conquer
    dsimp only
    congr 2
    split
    · rfl
    split
    · rfl
    simp only [← middleIn_eq (v := v)]
    rcases middleIn _ _ v with ⟨_ | ⟨x, y⟩, v⟩
    · rfl
    · exact congrArg₂ (· ++ ·) (ih ..) (ih ..)

/-- The arrays do not show in the comparison. -/
theorem blocksIn_eq (v : Arrays) (old new : List α) : blocksIn v old new = blocks old new := by
  rw [blocksIn, conquerIn_eq, blocks, script]

end LanguageClient.Diff
