import LanguageClient.Sync

/-!
# The events of a change

* `decode_toJson`: a server reads back the events that were written.
* `replay?_changes`: events that are sent at all turn the old text into the
  new one, whatever the kind.
-/
namespace LanguageClient

/-! ## On the wire -/

theorem Decoder.uint32_toNat (n : UInt32) : Decoder.uint32 (.int n.toNat) = .ok n := by
  have hn : (n.toNat : Int) ≤ 0xFFFFFFFF := by
    have := n.toNat_lt
    omega
  simp [Decoder.uint32, Decoder.int, hn, Functor.map, Except.map]

theorem Position.decode_toJson (p : Position) : Position.decode p.toJson = .ok p := by
  simp [Position.decode, Position.toJson, Position.fields, Fields.read, Fields.putAll, Fields.put,
    Fields.required, Fields.empty, Fields.finish, Decoder.uint32_toNat, Functor.map, Except.map]

theorem Range.decode_toJson (r : Range) : Range.decode r.toJson = .ok r := by
  simp [Range.decode, Range.toJson, Range.fields, Fields.read, Fields.putAll, Fields.put,
    Fields.required, Fields.empty, Fields.finish, Position.decode_toJson, Functor.map, Except.map]

/-- A range is never written as `null`, which would be read as no range. -/
theorem Range.nullable_toJson (r : Range) :
    Decoder.nullable Range.decode r.toJson = .ok (some r) := by
  have hr : Range.decode r.toJson = .ok r := r.decode_toJson
  simp only [Range.toJson] at hr ⊢
  simp [Decoder.nullable, hr, Functor.map, Except.map]

namespace ChangeEvent

theorem decode_toJson (e : ChangeEvent) : decode e.toJson = .ok e := by
  obtain ⟨range, text⟩ := e
  cases range with
  | none =>
    simp [decode, toJson, Json.optional, fields, Fields.read, Fields.putAll, Fields.put,
      Fields.required, Fields.optional, Fields.empty, Fields.finish, Decoder.string, Functor.map,
      Except.map]
  | some r =>
    simp [decode, toJson, Json.optional, fields, Fields.read, Fields.putAll, Fields.put,
      Fields.required, Fields.optional, Fields.empty, Fields.finish, Decoder.string,
      Range.nullable_toJson, Functor.map, Except.map]

theorem list_decode_toJson (events : List ChangeEvent) :
    Decoder.list decode (.arr (events.map toJson)) = .ok events := by
  induction events with
  | nil => rfl
  | cons e events ih =>
    have ih' : (events.map toJson).mapM decode = .ok events := ih
    simp [Decoder.list, decode_toJson, ih', bind, Except.bind, pure, Except.pure]

/-! ## Replay -/

theorem replay?_full (old new : String) : replay? old [.full new] = some new := by
  simp [replay?, full, applyAll?, applyTo?]

end ChangeEvent

/-- **Changes replay.** Whatever a change is told as, if anything is told, it turns the old text
into the new one. -/
theorem Sync.replay?_changes {kind : SyncKind} {old new : String}
    (h : Sync.changes kind old new ≠ []) :
    ChangeEvent.replay? old (Sync.changes kind old new) = some new := by
  unfold Sync.changes at h ⊢
  split at h
  · exact absurd rfl h
  · rename_i hne
    rw [if_neg hne]
    cases kind with
    | none => exact absurd rfl h
    | full => exact ChangeEvent.replay?_full old new
    | incremental =>
      show ChangeEvent.replay? old (Sync.incrementalChanges old new) = some new
      unfold Sync.incrementalChanges
      simp only
      split
      · rename_i hr
        simp [ChangeEvent.replay?, hr]
      · exact ChangeEvent.replay?_full old new

end LanguageClient
