import LanguageClient.Diff.Block

/-!
# The distance of two sequences

`Edits a b c` says that `c` deletions and insertions turn `a` into `b`, all
other items being kept; `dist` is the least such number.

* `edits_dist`, `dist_le`: it is one, and the least.
* `dist_append_le`, `dist_reverse`: comparisons can be put together and read
  backwards.
* `dist_le_snoc_snoc`, `succ_le_dist_snoc_snoc`: the last two items.
* `exists_cut`: a comparison can be cut at any number of edits.
-/
namespace LanguageClient.Diff

variable {α : Type}

/-! ## Edits -/

/-- `c` deletions and insertions turn one sequence into the other. -/
inductive Edits : List α → List α → Nat → Prop
  | nil : Edits [] [] 0
  | keep {a b : List α} {c : Nat} (x : α) (h : Edits a b c) : Edits (x :: a) (x :: b) c
  | delete {a b : List α} {c : Nat} (x : α) (h : Edits a b c) : Edits (x :: a) b (c + 1)
  | insert {a b : List α} {c : Nat} (y : α) (h : Edits a b c) : Edits a (y :: b) (c + 1)

namespace Edits

variable {a b a' b' : List α} {c c' : Nat}

theorem deleteAll (a : List α) : Edits a [] a.length := by
  induction a with
  | nil => exact .nil
  | cons x a ih => exact .delete x ih

theorem insertAll (b : List α) : Edits [] b b.length := by
  induction b with
  | nil => exact .nil
  | cons y b ih => exact .insert y ih

theorem refl (a : List α) : Edits a a 0 := by
  induction a with
  | nil => exact .nil
  | cons x a ih => exact .keep x ih

theorem append (h : Edits a b c) (h' : Edits a' b' c') : Edits (a ++ a') (b ++ b') (c + c') := by
  induction h with
  | nil => simpa using h'
  | keep x _ ih => exact .keep x ih
  | delete x _ ih => rw [Nat.add_right_comm]; exact .delete x ih
  | insert y _ ih => rw [Nat.add_right_comm]; exact .insert y ih

theorem exchangeAll (a b : List α) : Edits a b (a.length + b.length) := by
  simpa using (deleteAll a).append (insertAll b)

theorem symm (h : Edits a b c) : Edits b a c := by
  induction h with
  | nil => exact .nil
  | keep x _ ih => exact .keep x ih
  | delete x _ ih => exact .insert x ih
  | insert y _ ih => exact .delete y ih

theorem reverse (h : Edits a b c) : Edits a.reverse b.reverse c := by
  induction h with
  | nil => exact .nil
  | keep x _ ih =>
    rw [List.reverse_cons, List.reverse_cons]
    exact ih.append (.keep x .nil)
  | delete x _ ih => simpa using ih.append (.delete x .nil)
  | insert y _ ih => simpa using ih.append (.insert y .nil)

theorem eq_of_zero (h : Edits a b 0) : a = b := by
  generalize hc : 0 = c at h
  induction h with
  | nil => rfl
  | keep x _ ih => rw [ih hc]
  | delete _ _ _ => cases hc
  | insert _ _ _ => cases hc

/-- How the lengths differ, and that every edit tells in them. -/
theorem lengths (h : Edits a b c) :
    a.length ≤ b.length + c ∧ b.length ≤ a.length + c ∧ c ≤ a.length + b.length ∧
      (a.length + b.length) % 2 = c % 2 := by
  induction h with
  | nil => simp
  | keep _ _ ih => simp only [List.length_cons]; omega
  | delete _ _ ih => simp only [List.length_cons]; omega
  | insert _ _ ih => simp only [List.length_cons]; omega

/-- Without an item that is to be there in the end, one edit more or one less is needed. -/
theorem tail_right {y : α} (h : Edits a (y :: b) c) : ∃ e, e ≤ c + 1 ∧ Edits a b e := by
  generalize hb : y :: b = b' at h
  induction h with
  | nil => cases hb
  | keep x h _ => cases hb; exact ⟨_, Nat.le_refl _, .delete y h⟩
  | delete x _ ih =>
    obtain ⟨e, he, h'⟩ := ih hb
    exact ⟨e + 1, by omega, .delete x h'⟩
  | insert _ h _ => cases hb; exact ⟨_, by omega, h⟩

theorem tail_left {x : α} (h : Edits (x :: a) b c) : ∃ e, e ≤ c + 1 ∧ Edits a b e := by
  obtain ⟨e, he, h'⟩ := h.symm.tail_right
  exact ⟨e, he, h'.symm⟩

/-- Without an item of each, no more edits are needed. -/
theorem tails {x y : α} (h : Edits (x :: a) (y :: b) c) : ∃ e, e ≤ c ∧ Edits a b e := by
  cases h with
  | keep _ h => exact ⟨c, Nat.le_refl _, h⟩
  | delete _ h => exact h.tail_right
  | insert _ h => exact h.tail_left

/-- Of two items that differ, one must go. -/
theorem cons_cons_of_ne {x y : α} (h : Edits (x :: a) (y :: b) c) (hne : x ≠ y) :
    ∃ e, c = e + 1 ∧ (Edits a (y :: b) e ∨ Edits (x :: a) b e) := by
  cases h with
  | keep _ _ => exact absurd rfl hne
  | delete _ h => exact ⟨_, rfl, .inl h⟩
  | insert _ h => exact ⟨_, rfl, .inr h⟩

/-- Edits can be cut in two wherever one likes. -/
theorem cut (h : Edits a b c) {t : Nat} (ht : t ≤ c) :
    ∃ x y, x ≤ a.length ∧ y ≤ b.length ∧ Edits (a.take x) (b.take y) t ∧
      Edits (a.drop x) (b.drop y) (c - t) := by
  induction h generalizing t with
  | nil =>
    obtain rfl : t = 0 := by omega
    exact ⟨0, 0, by simp, by simp, .nil, .nil⟩
  | @keep a b c z h ih =>
    obtain ⟨x, y, hx, hy, h1, h2⟩ := ih ht
    exact ⟨x + 1, y + 1, by simpa using hx, by simpa using hy, .keep z h1, h2⟩
  | @delete a b c z h ih =>
    cases t with
    | zero => exact ⟨0, 0, by simp, by simp, .nil, .delete z h⟩
    | succ t =>
      obtain ⟨x, y, hx, hy, h1, h2⟩ := ih (Nat.le_of_succ_le_succ ht)
      exact ⟨x + 1, y, by simpa using hx, hy, .delete z h1, by simpa using h2⟩
  | @insert a b c z h ih =>
    cases t with
    | zero => exact ⟨0, 0, by simp, by simp, .nil, .insert z h⟩
    | succ t =>
      obtain ⟨x, y, hx, hy, h1, h2⟩ := ih (Nat.le_of_succ_le_succ ht)
      exact ⟨x, y + 1, hx, by simpa using hy, .insert z h1, by simpa using h2⟩

end Edits

/-! ## Distance -/

variable [DecidableEq α]

/-- The least number of deletions and insertions that turn one sequence into the other. -/
def dist : List α → List α → Nat
  | [], b => b.length
  | x :: a, [] => (x :: a).length
  | x :: a, y :: b =>
    if x = y then min (dist a b) (min (dist a (y :: b)) (dist (x :: a) b) + 1)
    else min (dist a (y :: b)) (dist (x :: a) b) + 1
termination_by a b => a.length + b.length

theorem edits_dist : ∀ a b : List α, Edits a b (dist a b)
  | [], b => by rw [dist]; exact .insertAll b
  | x :: a, [] => by rw [dist]; exact .deleteAll (x :: a)
  | x :: a, y :: b => by
    have hchange : Edits (x :: a) (y :: b) (min (dist a (y :: b)) (dist (x :: a) b) + 1) := by
      rcases Nat.le_total (dist a (y :: b)) (dist (x :: a) b) with h | h
      · rw [Nat.min_eq_left h]; exact .delete x (edits_dist a (y :: b))
      · rw [Nat.min_eq_right h]; exact .insert y (edits_dist (x :: a) b)
    rw [dist]
    split
    · rename_i hxy
      subst hxy
      rcases Nat.le_total (dist a b) (min (dist a (x :: b)) (dist (x :: a) b) + 1) with h | h
      · rw [Nat.min_eq_left h]; exact .keep x (edits_dist a b)
      · rw [Nat.min_eq_right h]; exact hchange
    · exact hchange
termination_by a b => a.length + b.length

theorem dist_le {a b : List α} {c : Nat} (h : Edits a b c) : dist a b ≤ c := by
  induction h with
  | nil => simp [dist]
  | keep x _ ih => rw [dist, if_pos rfl]; omega
  | @delete a b c x _ ih =>
    cases b with
    | nil =>
      have hl : dist a [] = a.length := by cases a <;> simp [dist]
      simp only [dist, List.length_cons]
      omega
    | cons y b => rw [dist]; split <;> omega
  | @insert a b c y _ ih =>
    cases a with
    | nil => simp only [dist, List.length_cons] at ih ⊢; omega
    | cons x a => rw [dist]; split <;> omega

/-- Every distance is the distance read backwards. -/
theorem dist_reverse (a b : List α) : dist a.reverse b.reverse = dist a b := by
  refine Nat.le_antisymm (dist_le (edits_dist a b).reverse) ?_
  have h := (edits_dist a.reverse b.reverse).reverse
  rw [List.reverse_reverse, List.reverse_reverse] at h
  exact dist_le h

theorem dist_append_le (a b a' b' : List α) :
    dist (a ++ a') (b ++ b') ≤ dist a b + dist a' b' :=
  dist_le ((edits_dist a b).append (edits_dist a' b'))

theorem dist_self (a : List α) : dist a a = 0 :=
  Nat.le_zero.1 (dist_le (.refl a))

theorem dist_nil_right (a : List α) : dist a [] = a.length := by
  cases a <;> simp [dist]

theorem dist_nil_left (b : List α) : dist [] b = b.length := by
  simp [dist]

theorem dist_lengths (a b : List α) :
    a.length ≤ b.length + dist a b ∧ b.length ≤ a.length + dist a b ∧
      dist a b ≤ a.length + b.length ∧ (a.length + b.length) % 2 = dist a b % 2 :=
  (edits_dist a b).lengths

/-! ## The first and the last items -/

theorem dist_le_cons_right (a b : List α) (y : α) : dist a b ≤ dist a (y :: b) + 1 := by
  obtain ⟨e, he, h⟩ := (edits_dist a (y :: b)).tail_right
  exact Nat.le_trans (dist_le h) he

theorem dist_cons_right_le (a b : List α) (y : α) : dist a (y :: b) ≤ dist a b + 1 :=
  dist_le (.insert y (edits_dist a b))

theorem dist_le_cons_cons (a b : List α) (x y : α) : dist a b ≤ dist (x :: a) (y :: b) := by
  obtain ⟨e, he, h⟩ := (edits_dist (x :: a) (y :: b)).tails
  exact Nat.le_trans (dist_le h) he

theorem dist_cons_cons_self (a b : List α) (x : α) : dist (x :: a) (x :: b) = dist a b :=
  Nat.le_antisymm (dist_le (.keep x (edits_dist a b))) (dist_le_cons_cons a b x x)

theorem succ_le_dist_cons_cons (a b : List α) {x y : α} (h : x ≠ y) :
    min (dist a (y :: b)) (dist (x :: a) b) + 1 ≤ dist (x :: a) (y :: b) := by
  obtain ⟨e, he, h1 | h1⟩ := (edits_dist (x :: a) (y :: b)).cons_cons_of_ne h
  · have := dist_le h1; omega
  · have := dist_le h1; omega

theorem dist_comm (a b : List α) : dist a b = dist b a :=
  Nat.le_antisymm (dist_le (edits_dist b a).symm) (dist_le (edits_dist a b).symm)

/-- What is added at the end changes the distance by at most one. -/
theorem dist_snoc_right (a b : List α) (y : α) :
    dist a b ≤ dist a (b ++ [y]) + 1 ∧ dist a (b ++ [y]) ≤ dist a b + 1 := by
  rw [← dist_reverse a b, ← dist_reverse a (b ++ [y]), List.reverse_append]
  exact ⟨dist_le_cons_right _ _ y, dist_cons_right_le _ _ y⟩

theorem dist_snoc_left (a b : List α) (x : α) :
    dist a b ≤ dist (a ++ [x]) b + 1 ∧ dist (a ++ [x]) b ≤ dist a b + 1 := by
  rw [dist_comm a b, dist_comm (a ++ [x]) b]
  exact dist_snoc_right b a x

theorem dist_le_snoc_snoc (a b : List α) (x y : α) : dist a b ≤ dist (a ++ [x]) (b ++ [y]) := by
  rw [← dist_reverse a b, ← dist_reverse (a ++ [x]), List.reverse_append, List.reverse_append]
  exact dist_le_cons_cons _ _ x y

theorem succ_le_dist_snoc_snoc (a b : List α) {x y : α} (h : x ≠ y) :
    min (dist a (b ++ [y])) (dist (a ++ [x]) b) + 1 ≤ dist (a ++ [x]) (b ++ [y]) := by
  rw [← dist_reverse a (b ++ [y]), ← dist_reverse (a ++ [x]) b,
    ← dist_reverse (a ++ [x]) (b ++ [y]), List.reverse_append, List.reverse_append]
  exact succ_le_dist_cons_cons _ _ h

/-! ## Cutting -/

theorem dist_append_left (p a b : List α) : dist (p ++ a) (p ++ b) = dist a b := by
  induction p with
  | nil => rfl
  | cons x p ih => rw [List.cons_append, List.cons_append, dist_cons_cons_self, ih]

theorem dist_append_right (a b s : List α) : dist (a ++ s) (b ++ s) = dist a b := by
  rw [← dist_reverse, List.reverse_append, List.reverse_append, dist_append_left, dist_reverse]

/-- A shortest comparison can be cut behind any number of its edits. -/
theorem exists_cut (a b : List α) {t : Nat} (ht : t ≤ dist a b) :
    ∃ x y, x ≤ a.length ∧ y ≤ b.length ∧ dist (a.take x) (b.take y) ≤ t ∧
      dist (a.drop x) (b.drop y) ≤ dist a b - t := by
  obtain ⟨x, y, hx, hy, h1, h2⟩ := (edits_dist a b).cut ht
  exact ⟨x, y, hx, hy, dist_le h1, dist_le h2⟩

theorem dist_le_cut (a b : List α) (x y : Nat) :
    dist a b ≤ dist (a.take x) (b.take y) + dist (a.drop x) (b.drop y) := by
  have h := dist_append_le (a.take x) (b.take y) (a.drop x) (b.drop y)
  rwa [List.take_append_drop, List.take_append_drop] at h

end LanguageClient.Diff
