import LanguageClient.Keyed
import Mathlib.Data.List.Nodup
import Mathlib.Data.String.Basic

/-!
# Values by name, each name once

What the operations on `Keyed` values do to the names, and what a look-up
gives behind them. Most of it holds of any list; that a name comes only once
is needed where entries are taken out.
-/
namespace LanguageClient.Keyed

variable {α β : Type} {name other : String} {value : α} {entries : Keyed α}

/-! ## Names -/

@[simp] theorem names_nil : names ([] : Keyed α) = [] := rfl

@[simp] theorem names_cons (k : String) (v : α) (rest : Keyed α) :
    names ((k, v) :: rest) = k :: names rest := rfl

theorem forall_mem_cons {P : String → α → Prop} :
    (∀ k v, (k, v) ∈ (name, value) :: entries → P k v) ↔
      P name value ∧ ∀ k v, (k, v) ∈ entries → P k v := by
  constructor
  · exact fun h => ⟨h _ _ List.mem_cons_self, fun k v hm => h k v (List.mem_cons_of_mem _ hm)⟩
  · rintro ⟨hfirst, hrest⟩ k v hm
    rcases List.mem_cons.1 hm with he | hm
    · cases he
      exact hfirst
    · exact hrest k v hm

theorem get?_eq_none_iff : entries.get? name = none ↔ name ∉ entries.names := by
  induction entries with
  | nil => simp
  | cons entry rest ih =>
    obtain ⟨k, v⟩ := entry
    by_cases h : k = name
    · simp [h]
    · simp [h, ih, Ne.symm h]

theorem mem_names_of_get? (h : entries.get? name = some value) : name ∈ entries.names := by
  by_contra hn
  rw [get?_eq_none_iff.2 hn] at h
  cases h

theorem exists_get? (h : name ∈ entries.names) : ∃ value, entries.get? name = some value := by
  cases hg : entries.get? name with
  | none => exact absurd h (get?_eq_none_iff.1 hg)
  | some value => exact ⟨value, rfl⟩

theorem mem_of_get? (h : entries.get? name = some value) : (name, value) ∈ entries := by
  induction entries with
  | nil => cases h
  | cons entry rest ih =>
    obtain ⟨k, v⟩ := entry
    rw [get?_cons] at h
    split at h
    · rename_i hk
      rw [hk, Option.some.inj h]
      exact List.mem_cons_self
    · exact List.mem_cons_of_mem _ (ih h)

theorem get?_of_mem (hn : entries.names.Nodup) (h : (name, value) ∈ entries) :
    entries.get? name = some value := by
  induction entries with
  | nil => cases h
  | cons entry rest ih =>
    obtain ⟨k, v⟩ := entry
    rw [names_cons, List.nodup_cons] at hn
    rcases List.mem_cons.1 h with he | hr
    · cases he
      simp
    · have hk : k ≠ name := fun hk => hn.1 (hk ▸ List.mem_map_of_mem (f := Prod.fst) hr)
      rw [get?_cons, if_neg hk, ih hn.2 hr]

/-! ## Operations -/

theorem names_map (f : String → α → β) (entries : Keyed α) :
    names (entries.map fun (k, v) => (k, f k v)) = entries.names := by
  simp [names]

theorem get?_map (f : String → α → β) (entries : Keyed α) (name : String) :
    get? name (entries.map fun (k, v) => (k, f k v)) = (entries.get? name).map (f name) := by
  induction entries with
  | nil => rfl
  | cons entry rest ih =>
    obtain ⟨k, v⟩ := entry
    rw [List.map_cons, get?_cons, get?_cons]
    split
    · rename_i hk
      rw [hk]
      rfl
    · exact ih

theorem get?_put (entries : Keyed α) (name other : String) (value : α) :
    (put name value entries).get? other =
      if other = name then some value else entries.get? other := by
  split
  · rename_i h
    rw [h, get?_put_self]
  · rename_i h
    exact get?_put_of_ne value entries h

theorem names_put (h : name ∈ entries.names) (value : α) :
    (put name value entries).names = entries.names := by
  induction entries with
  | nil => cases h
  | cons entry rest ih =>
    obtain ⟨k, v⟩ := entry
    rw [put]
    split
    · rename_i hk
      rw [names_cons, names_cons, hk]
    · rename_i hk
      rw [names_cons, names_cons, ih ((List.mem_cons.1 h).resolve_left (Ne.symm hk))]

theorem names_put_of_not_mem (h : name ∉ entries.names) (value : α) :
    (put name value entries).names = entries.names ++ [name] := by
  induction entries with
  | nil => rfl
  | cons entry rest ih =>
    obtain ⟨k, v⟩ := entry
    rw [names_cons, List.mem_cons, not_or] at h
    rw [put, if_neg (Ne.symm h.1), names_cons, names_cons, ih h.2, List.cons_append]

theorem nodup_put (h : entries.names.Nodup) (name : String) (value : α) :
    (put name value entries).names.Nodup := by
  by_cases hm : name ∈ entries.names
  · rw [names_put hm]
    exact h
  · rw [names_put_of_not_mem hm, List.nodup_append]
    exact ⟨h, List.nodup_singleton _, by
      rintro a ha b hb rfl
      exact hm (List.mem_singleton.1 hb ▸ ha)⟩

theorem names_filter_sublist (p : String × α → Bool) (entries : Keyed α) :
    (names (entries.filter p)).Sublist entries.names :=
  List.filter_sublist.map Prod.fst

theorem get?_filter (hn : entries.names.Nodup) (p : String × α → Bool) (name : String) :
    get? name (entries.filter p) = (entries.get? name).filter fun value => p (name, value) := by
  induction entries with
  | nil => rfl
  | cons entry rest ih =>
    obtain ⟨k, v⟩ := entry
    rw [names_cons, List.nodup_cons] at hn
    have ih' := ih hn.2
    by_cases hk : k = name
    · subst hk
      rw [get?_cons, if_pos rfl]
      by_cases hp : p (k, v)
      · rw [List.filter_cons, if_pos hp, get?_cons, if_pos rfl]
        exact (if_pos hp).symm
      · rw [List.filter_cons, if_neg hp, get?_eq_none_iff.2 fun hm => hn.1 ?_]
        · exact (if_neg hp).symm
        · exact (names_filter_sublist p rest).subset hm
    · rw [get?_cons, if_neg hk, ← ih', List.filter_cons]
      split
      · rw [get?_cons, if_neg hk]
      · rfl

theorem get?_erase_self (name : String) (entries : Keyed α) :
    (erase name entries).get? name = none := by
  rw [get?_eq_none_iff]
  simp [names, erase]

theorem get?_erase_of_ne (entries : Keyed α) (h : other ≠ name) :
    (erase name entries).get? other = entries.get? other := by
  induction entries with
  | nil => rfl
  | cons entry rest ih =>
    obtain ⟨k, v⟩ := entry
    by_cases hk : k = name
    · have hko : k ≠ other := fun e => h (e.symm.trans hk)
      simpa [erase, hk, hko, h.symm] using ih
    · have : erase name ((k, v) :: rest) = (k, v) :: erase name rest := by
        simp [erase, hk]
      rw [this, get?_cons, get?_cons, ih]

theorem get?_insert (entries : Keyed α) (name other : String) (value : α) :
    (insert name value entries).get? other =
      if other = name then some value else entries.get? other := by
  induction entries with
  | nil => simp [insert, eq_comm]
  | cons entry rest ih =>
    obtain ⟨k, v⟩ := entry
    rw [insert]
    split
    · simp [eq_comm]
    split
    · rename_i hk
      by_cases ho : other = name
      · simp [ho]
      · simp [← hk, ho, Ne.symm ho]
    · rename_i hk
      rw [get?_cons, ih, get?_cons]
      by_cases ho : other = name
      · simp [ho, Ne.symm hk]
      · simp [ho]

theorem mem_names_insert :
    other ∈ (insert name value entries).names ↔ other = name ∨ other ∈ entries.names := by
  rw [← not_iff_not, ← get?_eq_none_iff, get?_insert, not_or, ← get?_eq_none_iff]
  by_cases h : other = name <;> simp [h]

/-! ## Names in order -/

/-- The names are in order, and so each comes once. -/
def Sorted (entries : Keyed α) : Prop :=
  entries.names.Pairwise (· < ·)

theorem Sorted.nodup (h : entries.Sorted) : entries.names.Nodup :=
  List.Pairwise.imp (fun hlt => ne_of_lt hlt) h

theorem Sorted.of_names {entries : Keyed α} {entries' : Keyed β} (h : entries.Sorted)
    (hn : entries'.names = entries.names) : entries'.Sorted := by
  rw [Sorted, hn]
  exact h

theorem Sorted.filter (h : entries.Sorted) (p : String × α → Bool) :
    Sorted (entries.filter p) :=
  List.Pairwise.sublist (names_filter_sublist p entries) h

theorem Sorted.insert (h : entries.Sorted) (name : String) (value : α) :
    (insert name value entries).Sorted := by
  unfold Sorted at h ⊢
  induction entries with
  | nil => simp [Keyed.insert]
  | cons entry rest ih =>
    obtain ⟨k, v⟩ := entry
    rw [names_cons, List.pairwise_cons] at h
    rw [Keyed.insert]
    split
    · rename_i hlt
      simp only [names_cons, List.pairwise_cons, List.mem_cons]
      exact ⟨by rintro x (rfl | hx); exacts [hlt, hlt.trans (h.1 x hx)], h⟩
    split
    · rename_i heq
      subst heq
      exact List.pairwise_cons.2 h
    · rename_i hlt hne
      refine List.pairwise_cons.2 ⟨fun x hx => ?_, ih h.2⟩
      rcases mem_names_insert.1 hx with rfl | hx
      · exact lt_of_le_of_ne (not_lt.1 hlt) (Ne.symm hne)
      · exact h.1 x hx

end LanguageClient.Keyed
