import Mathlib.Data.List.Sort

/-!
# Stable sorting

A merge sort leaves what is equal to its order as it was (`filter_mergeSort`).
So sorting by a key that takes few values puts together the parts of the list
with each value, every part in the order of the list.

* `eq_flatMap_filter`: a list in the order of a key is made of these parts.
* `mergeSort_eq_flatMap`: sorting any list puts them together.
-/
namespace LanguageClient.Sorting

variable {α κ : Type}

/-- What is equal to the order stays as it was. -/
theorem filter_mergeSort {r : α → α → Bool}
    (trans : ∀ a b c, r a b = true → r b c = true → r a c = true)
    (total : ∀ a b, (r a b || r b a) = true) {p : α → Bool}
    (hp : ∀ a b, p a = true → p b = true → r a b = true) (l : List α) :
    (l.mergeSort r).filter p = l.filter p := by
  have hsorted : (l.filter p).Pairwise fun a b => r a b = true :=
    List.pairwise_of_forall_mem_list fun a ha b hb =>
      hp a b (List.of_mem_filter ha) (List.of_mem_filter hb)
  have hsub := (List.sublist_mergeSort trans total hsorted List.filter_sublist).filter p
  simp only [List.filter_filter, Bool.and_self] at hsub
  exact (hsub.eq_of_length ((List.mergeSort_perm l r).filter p).length_eq.symm).symm

variable [LinearOrder κ] {key : α → κ}

/-- In the order of a key, what has a value that no key is below comes first. -/
theorem filter_append_filter {k : κ} {l : List α} (hsorted : l.Pairwise fun a b => key a ≤ key b)
    (hk : ∀ a ∈ l, k ≤ key a) :
    l.filter (fun a => key a = k) ++ l.filter (fun a => ¬key a = k) = l := by
  induction l with
  | nil => rfl
  | cons a l ih =>
    rw [List.pairwise_cons] at hsorted
    by_cases ha : key a = k
    · simpa [ha] using ih hsorted.2 fun b hb => hk b (List.mem_cons_of_mem _ hb)
    · -- `k` is below the key of the head, and so below all the others
      have hlt : k < key a := lt_of_le_of_ne (hk a List.mem_cons_self) (Ne.symm ha)
      have hne : ∀ b ∈ l, key b ≠ k := fun b hb => ne_of_gt (hlt.trans_le (hsorted.1 b hb))
      have hnone : l.filter (fun b => key b = k) = [] := by simpa using hne
      simpa [ha, hnone] using hne

/-- A list in the order of a key is made of its parts with each value of the key. -/
theorem eq_flatMap_filter {keys : List κ} (hkeys : keys.Pairwise (· < ·)) {l : List α}
    (hsorted : l.Pairwise fun a b => key a ≤ key b) (hmem : ∀ a ∈ l, key a ∈ keys) :
    l = keys.flatMap fun k => l.filter fun a => key a = k := by
  induction keys generalizing l with
  | nil =>
    cases l with
    | nil => rfl
    | cons a l => exact absurd (hmem a List.mem_cons_self) List.not_mem_nil
  | cons k keys ih =>
    rw [List.pairwise_cons] at hkeys
    have hleast : ∀ a ∈ l, k ≤ key a := fun a ha => by
      rcases List.mem_cons.1 (hmem a ha) with h | h
      · exact h.ge
      · exact (hkeys.1 _ h).le
    have hrest := ih hkeys.2 (l := l.filter fun a => ¬key a = k) (hsorted.filter _) fun a ha => by
      obtain ⟨ha, hne⟩ := List.mem_filter.1 ha
      exact (List.mem_cons.1 (hmem a ha)).resolve_left (by simpa using hne)
    have hparts : (keys.flatMap fun k' =>
        (l.filter fun a => ¬key a = k).filter fun a => key a = k') =
          keys.flatMap fun k' => l.filter fun a => key a = k' := by
      refine List.flatMap_congr fun k' hk' => ?_
      rw [List.filter_filter]
      refine List.filter_congr fun a _ => ?_
      have hne : k' ≠ k := ne_of_gt (hkeys.1 k' hk')
      by_cases ha : key a = k'
      · simp [ha, hne]
      · simp [ha]
    rw [List.flatMap_cons, ← hparts, ← hrest]
    exact (filter_append_filter hsorted hleast).symm

theorem decide_le_trans (a b c : α) (hab : decide (key a ≤ key b) = true)
    (hbc : decide (key b ≤ key c) = true) : decide (key a ≤ key c) = true :=
  decide_eq_true ((of_decide_eq_true hab).trans (of_decide_eq_true hbc))

theorem decide_le_total (a b : α) :
    (decide (key a ≤ key b) || decide (key b ≤ key a)) = true := by
  simpa using le_total (key a) (key b)

theorem pairwise_mergeSort_key (l : List α) :
    (l.mergeSort fun a b => key a ≤ key b).Pairwise fun a b => key a ≤ key b :=
  (List.pairwise_mergeSort decide_le_trans decide_le_total l).imp of_decide_eq_true

/-- Sorting by a key puts together the parts with each value of the key, each as it was. -/
theorem mergeSort_eq_flatMap {keys : List κ} (hkeys : keys.Pairwise (· < ·)) {l : List α}
    (hmem : ∀ a ∈ l, key a ∈ keys) :
    l.mergeSort (fun a b => key a ≤ key b) =
      keys.flatMap fun k => l.filter fun a => key a = k := by
  rw [eq_flatMap_filter hkeys (pairwise_mergeSort_key l) fun a ha =>
    hmem a (List.mem_mergeSort.1 ha)]
  refine List.flatMap_congr fun k _ =>
    filter_mergeSort decide_le_trans decide_le_total (fun a b ha hb => ?_) l
  rw [of_decide_eq_true ha, of_decide_eq_true hb]
  exact decide_eq_true le_rfl

end LanguageClient.Sorting
