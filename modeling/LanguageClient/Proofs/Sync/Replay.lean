import LanguageClient.Proofs.Sync.Events
import LanguageClient.Proofs.Text.Splice

/-!
# What a server makes of the changes

A server applies the events it is sent one after another, each to the text
that those before it left. Nothing is sent for a text that stays as it is,
and what is sent brings the server's copy to the new text, by way of a text
after every event.

* `ranged_lineChanges`: the events of a comparison all have a range.
* `changes_faithful`: what holds of the events, whatever the two texts are.
-/
namespace LanguageClient

open ChangeEvent (replay? applyAll?)

/-! ## Batches in part -/

/-- A batch that applies does so by way of the text after any of its events. -/
theorem ChangeEvent.replay?_split {old new : String} {es fs : List ChangeEvent}
    (h : replay? old (es ++ fs) = some new) :
    ∃ mid, replay? old es = some mid ∧ replay? mid fs = some new := by
  unfold replay? at h ⊢
  rw [applyAll?_append] at h
  cases hes : applyAll? old.toList es with
  | none =>
    rw [hes] at h
    cases h
  | some mid =>
    rw [hes] at h
    exact ⟨String.ofList mid, rfl, by rwa [String.toList_ofList]⟩

namespace Sync

/-! ## Events with a range -/

theorem ranged_addInsertion {line : Nat} {text : String} {events : List ChangeEvent}
    (h : ∀ e ∈ events, e.isFull = false) :
    ∀ e ∈ addInsertion line text events, e.isFull = false := by
  cases events with
  | nil => simp [addInsertion, ChangeEvent.isFull, ChangeEvent.ranged]
  | cons last events =>
    have ⟨hlast, hevents⟩ := List.forall_mem_cons.1 h
    simp only [addInsertion]
    split
    · exact List.forall_mem_cons.2 ⟨hlast, hevents⟩
    · exact List.forall_mem_cons.2 ⟨rfl, h⟩

theorem ranged_addBlock {old new : List (List Char)} {events : List ChangeEvent}
    (h : ∀ e ∈ events, e.isFull = false) (x : Diff.Block) :
    ∀ e ∈ addBlock old new events x, e.isFull = false := by
  unfold addBlock
  cases x.kind with
  | equal => exact h
  | delete => exact List.forall_mem_cons.2 ⟨rfl, h⟩
  | insert => exact ranged_addInsertion h
  | replace => exact List.forall_mem_cons.2 ⟨rfl, h⟩

/-- No event of a comparison of lines replaces the whole document. -/
theorem ranged_lineChanges (old new : List (List Char)) :
    ∀ e ∈ lineChanges old new, e.isFull = false := by
  intro e he
  refine List.foldlRecOn (Diff.blocks old new) (addBlock old new)
    (motive := fun events => ∀ e ∈ events, e.isFull = false) (by simp) ?_ e (List.mem_reverse.1 he)
  exact fun _ h x _ => ranged_addBlock h x

/-! ## The batch -/

/-- A text that stays as it is needs no events. -/
theorem changes_self (kind : SyncKind) (text : String) : changes kind text text = [] :=
  if_pos rfl

theorem changes_eq_full {old new : String} (h : old ≠ new) : changes .full old new = [.full new] :=
  if_neg h

theorem changes_eq_incrementalChanges {old new : String} (h : old ≠ new) :
    changes .incremental old new = incrementalChanges old new :=
  if_neg h

/-- If no event is told, there is nothing to tell. -/
theorem incrementalChanges_ne_nil {old new : String} (h : old ≠ new) :
    incrementalChanges old new ≠ [] := by
  unfold incrementalChanges
  simp only
  split
  · rename_i happly
    intro hnil
    rw [hnil] at happly
    exact h (String.toList_injective (Option.some.inj happly))
  · exact List.cons_ne_nil _ _

/-- A server that wants to be told of a change gets from the old text to the new one. -/
structure Faithful (kind : SyncKind) (old new : String) : Prop where
  replay : replay? old (changes kind old new) = some new
  nil_iff : changes kind old new = [] ↔ old = new
  steps : ∀ es fs, changes kind old new = es ++ fs →
    ∃ mid, replay? old es = some mid ∧ replay? mid fs = some new

theorem faithful_of_ne_nil {kind : SyncKind} {old new : String}
    (h : old ≠ new → changes kind old new ≠ []) : Faithful kind old new := by
  have hnil : changes kind old new = [] ↔ old = new :=
    ⟨fun hn => Decidable.byContradiction fun hne => h hne hn, fun he => he ▸ changes_self kind old⟩
  have hreplay : replay? old (changes kind old new) = some new := by
    by_cases he : old = new
    · rw [he, changes_self]
      simp [replay?, applyAll?]
    · exact replay?_changes (h he)
  exact ⟨hreplay, hnil, fun es fs hsplit => ChangeEvent.replay?_split (hsplit ▸ hreplay)⟩

/-- **Events replay.** Told in full or incrementally, whatever the old and the new text are, the
events bring a server from the one to the other, and there are none only if both are the same. In
full there is one event, with the whole new text; incrementally an event with a whole text is the
only one. -/
theorem changes_faithful (old new : String) :
    Faithful .full old new ∧ Faithful .incremental old new ∧
      (old ≠ new → changes .full old new = [.full new]) ∧
      ∀ e ∈ changes .incremental old new, e.isFull = true →
        changes .incremental old new = [e] ∧ e = .full new := by
  refine ⟨faithful_of_ne_nil fun h => ?_, faithful_of_ne_nil fun h => ?_, changes_eq_full, ?_⟩
  · rw [changes_eq_full h]
    exact List.cons_ne_nil _ _
  · rw [changes_eq_incrementalChanges h]
    exact incrementalChanges_ne_nil h
  · intro e he hfull
    by_cases h : old = new
    · rw [h, changes_self] at he
      cases he
    · rw [changes_eq_incrementalChanges h] at he ⊢
      unfold incrementalChanges at he ⊢
      simp only at he ⊢
      split at he
      · exact absurd hfull (by simp [ranged_lineChanges _ _ e he])
      · rename_i happly
        rw [if_neg happly]
        obtain rfl := List.mem_singleton.1 he
        exact ⟨rfl, rfl⟩

end Sync

end LanguageClient
