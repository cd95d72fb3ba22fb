import LanguageClient.Proofs.Text.Boundary
import LanguageClient.Text.OsString

/-!
# Lists of paths

Taking a list of paths apart and putting it together again gives the list,
with its empty paths.

* `joinParts?_extended`: a list of paths is kept where others are added to it.
* `separator_mem_ofText`: which texts cannot be in a list.
-/
namespace LanguageClient

namespace OsString

variable {list part : OsString} {paths : List OsString}

/-- No part of a list that is split at an item has the item in it. -/
theorem not_mem_of_mem_splitOn {α : Type} [BEq α] [LawfulBEq α] {a : α} {xs : List α} :
    ∀ {part : List α}, part ∈ xs.splitOn a → a ∉ part := by
  induction xs with
  | nil => simp
  | cons x xs ih =>
    intro part h
    obtain ⟨first, others, he⟩ := List.exists_cons_of_ne_nil (List.splitOn_ne_nil a xs)
    rw [he] at ih
    rw [List.splitOn_cons_eq_if_modifyHead, he] at h
    split at h <;> rename_i hx <;> rcases List.mem_cons.1 h with rfl | h
    · exact List.not_mem_nil
    · exact ih h
    · rw [List.mem_cons, not_or]
      exact ⟨fun ha => hx (beq_iff_eq.2 ha.symm), ih List.mem_cons_self⟩
    · exact ih (List.mem_cons_of_mem _ h)

/-- What is put together of some lists can be put together with more. -/
theorem intercalate_append {α : Type} (sep : List α) {ls : List (List α)} (h : ls ≠ [])
    (ms : List (List α)) :
    sep.intercalate (ls ++ ms) = sep.intercalate (sep.intercalate ls :: ms) := by
  cases ms with
  | nil => simp
  | cons m ms =>
    induction ls with
    | nil => exact absurd rfl h
    | cons l ls ih =>
      cases ls with
      | nil => simp
      | cons next ls =>
        rw [List.cons_append, List.cons_append, List.intercalate_cons_cons, ← List.cons_append,
          ih (List.cons_ne_nil _ _), List.intercalate_cons_cons, List.intercalate_cons_cons,
          List.intercalate_cons_cons]
        simp only [List.append_assoc]

theorem separator_not_mem (h : part ∈ list.parts) : separator ∉ part.bytes := by
  obtain ⟨bytes, hb, rfl⟩ := List.mem_map.1 h
  exact not_mem_of_mem_splitOn hb

/-- A list is its parts put together. -/
theorem joined_parts (list : OsString) : joined list.parts = list := by
  simp [joined, parts, List.map_map, Function.comp_def, List.intercalate_splitOn]

theorem joined_append (h : paths ≠ []) (more : List OsString) :
    joined (paths ++ more) = joined (joined paths :: more) := by
  have hne : paths.map bytes ≠ [] := by simpa using h
  simp only [joined, List.map_append, List.map_cons, intercalate_append _ hne]

/-- Paths are kept as they are in front of others. -/
theorem prefix_joined (list : OsString) (more : List OsString) :
    list.bytes <+: (joined (list :: more)).bytes := by
  cases more with
  | nil => simp [joined]
  | cons next rest =>
    simp only [joined, List.map_cons, List.intercalate_cons_cons, List.append_assoc]
    exact List.prefix_append _ _

/-- A list of paths is kept where others are added to it, and nothing else can be in the way. -/
theorem joinParts?_extended (present : Option OsString) (added : List OsString) :
    joinParts? ((present.map parts).getD [] ++ added) =
      if added.any fun path => path.bytes.contains separator then none
      else some (joined (present.toList ++ added)) := by
  cases present with
  | none => rfl
  | some list =>
    have hclear : (list.parts.any fun path => path.bytes.contains separator) = false := by
      rw [List.any_eq_false]
      exact fun part hp => by simpa using separator_not_mem hp
    have hne : list.parts ≠ [] := by simp [parts, List.splitOn_ne_nil]
    rw [Option.map_some, Option.getD_some, joinParts?, List.any_append, hclear, Bool.false_or,
      joined_append hne, joined_parts]
    rfl

/-- A text has a separator among its octets exactly if it has a colon. -/
theorem separator_mem_ofText {text : String} :
    separator ∈ (ofText text).bytes ↔ ':' ∈ text.toList := by
  simp only [ofText, Utf8.ofString, Utf8.encode, List.mem_flatMap]
  constructor
  · rintro ⟨c, hc, hb⟩
    have hn : c.toNat = 58 := (Utf8.toNat_of_mem_encodeChar (by decide) hb).symm
    have he : c = ':' := Char.toNat_inj.1 hn
    exact he ▸ hc
  · exact fun hc => ⟨':', hc, by decide⟩

end OsString

end LanguageClient
