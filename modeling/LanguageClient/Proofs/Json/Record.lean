import LanguageClient.Json.Decode
import Mathlib.Data.List.Forall2

/-!
# What a record was read from

A required field at the head of a record has one place in a value: the
member of its name in an object, the first item of an array. When a record
is read, its head is what the decoder of the field makes of the value in
that place.

* `exists_of_read`: the value behind the head of a record.
* `list_forall₂`: a list is read item by item.
-/
namespace LanguageClient

namespace Fields

variable {α β : Type} {name : String} {read : Decoder α} {rest : Fields β} {x : α}
  {slot slot' : Option α} {others others' : Slots rest}

/-- A member fills the field of its name, which must be free, and leaves it alone otherwise. -/
theorem put_required {key : String} {value : Json}
    (h : (required name read rest).put key value (slot, others) = .ok (slot', others')) :
    (key = name ∧ slot = none ∧ ∃ x, read value = .ok x ∧ slot' = some x) ∨
      (key ≠ name ∧ slot' = slot) := by
  simp only [required, put] at h
  by_cases hkey : key = name
  · subst hkey
    simp only [List.contains_cons, beq_self_eq_true, Bool.true_or, if_true] at h
    cases slot with
    | some y => cases h
    | none =>
      cases hread : read value with
      | error e =>
        simp only [hread] at h
        cases h
      | ok x =>
        simp only [hread] at h
        cases h
        exact .inl ⟨rfl, rfl, x, rfl, rfl⟩
  · simp only [List.contains_cons, beq_false_of_ne hkey, List.contains_nil, Bool.or_false,
      Bool.false_eq_true, if_false] at h
    cases hput : put rest key value others with
    | error e =>
      simp only [hput] at h
      cases h
    | ok others =>
      simp only [hput] at h
      cases h
      exact .inr ⟨hkey, rfl⟩

theorem putAll_required {members : List (String × Json)}
    (h : (required name read rest).putAll members (slot, others) = .ok (some x, others')) :
    slot = some x ∨
      slot = none ∧ ∃ value, members.lookup name = some value ∧ read value = .ok x := by
  induction members generalizing slot others with
  | nil =>
    cases h
    exact .inl rfl
  | cons member members ih =>
    obtain ⟨key, value⟩ := member
    simp only [putAll] at h
    cases hput : (required name read rest).put key value (slot, others) with
    | error e =>
      rw [hput] at h
      cases h
    | ok slots =>
      obtain ⟨slot₁, others₁⟩ := slots
      rw [hput] at h
      rcases put_required hput with ⟨rfl, hfree, y, hread, rfl⟩ | ⟨hkey, rfl⟩
      · -- the member of that name: none of the later ones fills the field again
        rcases ih h with hsame | ⟨hnone, -⟩
        · cases hsame
          exact .inr ⟨hfree, value, by simp, hread⟩
        · cases hnone
      · refine (ih h).imp_right fun ⟨hfree, found, hlookup, hread⟩ => ⟨hfree, found, ?_, hread⟩
        rw [List.lookup_cons, beq_false_of_ne (Ne.symm hkey)]
        exact hlookup

theorem head_of_finish {slots : Slots rest} {xs : β}
    (h : (required name read rest).finish (slot, slots) = .ok (x, xs)) : slot = some x := by
  cases slot with
  | none => cases h
  | some y =>
    simp only [required, finish] at h
    cases hrest : rest.finish slots with
    | error e =>
      rw [hrest] at h
      cases h
    | ok ys =>
      rw [hrest] at h
      cases h
      rfl

theorem head_of_readItems {total index : Nat} {wanted : String} {value : Json}
    {items : List Json} {xs : β}
    (h : (required name read rest).readItems total wanted index (value :: items) =
      .ok (x, xs)) : read value = .ok x := by
  rw [required, readItems] at h
  cases hread : read value with
  | error e =>
    rw [hread] at h
    cases h
  | ok y =>
    cases hrest : rest.readItems total wanted (index + 1) items with
    | error e =>
      simp only [hread, hrest] at h
      cases h
    | ok ys =>
      simp only [hread, hrest] at h
      cases h
      rfl

/-- The head of a record is read from the member of its name or from the first item. -/
theorem exists_of_read {record : String} {j : Json} {xs : β}
    (h : (required name read rest).read record j = .ok (x, xs)) :
    ∃ value, (j.get? name = some value ∨ ∃ items, j = .arr (value :: items)) ∧
      read value = .ok x := by
  cases j with
  | obj members =>
    simp only [Fields.read] at h
    split at h
    · next slots hslots =>
      obtain ⟨slot, others⟩ := slots
      obtain rfl : slot = some x := head_of_finish h
      rcases putAll_required hslots with hsome | ⟨-, value, hlookup, hread⟩
      · cases hsome
      · exact ⟨value, .inl hlookup, hread⟩
    · cases h
  | arr items =>
    cases items with
    | nil => cases h
    | cons value items => exact ⟨value, .inr ⟨items, rfl⟩, head_of_readItems h⟩
  | _ => cases h

end Fields

/-- A list is read item by item. -/
theorem Decoder.list_forall₂ {α : Type} {read : Decoder α} {j : Json} {xs : List α}
    (h : Decoder.list read j = .ok xs) :
    ∃ items, j = .arr items ∧ List.Forall₂ (fun item x => read item = .ok x) items xs := by
  cases j with
  | arr items =>
    refine ⟨items, rfl, ?_⟩
    rw [Decoder.list] at h
    induction items generalizing xs with
    | nil =>
      cases h
      exact .nil
    | cons item items ih =>
      rw [List.mapM_cons] at h
      cases hread : read item with
      | error e =>
        rw [hread] at h
        cases h
      | ok x =>
        cases hrest : items.mapM read with
        | error e =>
          rw [hread, hrest] at h
          cases h
        | ok ys =>
          rw [hread, hrest] at h
          cases h
          exact .cons hread (ih hrest)
  | _ => cases h

end LanguageClient
