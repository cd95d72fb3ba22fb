import LanguageClient.Proofs.Session.Opened

/-!
# Saved documents

When a document is saved, its server is told of the change first, if there is
one and the server wants changes, and then of the save. The text that goes with
the save is read off the document behind the change, so a server that wants no
changes but does want the text gets the text of the last snapshot, whatever was
saved.

* `log_didChange`: what a change queues.
* `didSave_carries`: what a save queues, and exactly when it carries the text
  that was saved.
* `stale_save`: a save that carries another text.
-/
namespace LanguageClient

/-- The document that a message says is saved, and the text that it carries. -/
def Outgoing.saves? : Outgoing → Option (String × Option String)
  | .notification method params =>
    if method = Method.didSave then
      (Mirror.uri? params).map fun uri => (uri, (params.bind (Json.get? "text")).bind Json.str?)
    else none
  | _ => none

theorem saves?_didSave (uri : String) (text : Option String) :
    Outgoing.saves? (.notification Method.didSave (some (Params.didSave uri text))) =
      some (uri, text) := by
  cases text <;> rfl

namespace Session

/-- The messages that bring the server's copy of a document to a text: a change that gives the
text, if the server is to be told of one. -/
def Brings (s : Session) (d : Document) (text : String) (changes : List Outgoing) : Prop :=
  if s.due d text then
    ∃ events, ChangeEvent.replay? d.text events = some text ∧
      changes = [.notification Method.didChange
        (some (Params.didChange d.uri (d.version + 1) events))]
  else changes = []

variable {s : Session} {d : Document} {text : String} {now : Nat}

/-- A notification that does not fail is queued. -/
theorem log_notify {method : String} {params : Json}
    (h : (s.notify method params now).1 = .ok ()) :
    (s.notify method params now).2.log = s.log ++ [.notification method (some params)] := by
  have hs : s.client.state = .running := by
    by_contra hs
    rw [notify_refused hs] at h
    cases h
  simp only [notify, s.client.notify_of_running method (some params) hs]
  rw [(flush_log _ now).1]
  simp [log]

/-- A change that is due is sent as events that lead from the one text to the other. -/
theorem didChange_of_due (h : s.due d text = true) (now : Nat) :
    ∃ events, ChangeEvent.replay? d.text events = some text ∧
      s.didChange d text now =
        match s.notify Method.didChange (Params.didChange d.uri (d.version + 1) events) now with
        | (.error e, s) => (.error e, d.moved text, s)
        | (.ok (), s) => (.ok true, d.moved text, s) := by
  simp only [due, Bool.and_eq_true, Option.any_eq_true, bne_iff_ne, ne_eq] at h
  obtain ⟨⟨hd, ht⟩, options, ho, hk⟩ := h
  have hc : Sync.changes (.ofOptions options) d.text text ≠ [] := fun hc =>
    (Sync.changes_eq_nil_iff.1 hc).elim (fun h => ht h.symm) hk
  refine ⟨_, Sync.replay?_changes hc, ?_⟩
  simp only [didChange, hd, ho, Document.syncTo, List.isEmpty_iff, if_neg hc, Bool.not_true,
    Bool.false_eq_true, if_false]
  rfl

/-- A change that does not fail queues what brings the server's copy to the text. -/
theorem log_didChange {told : Bool} (h : (s.didChange d text now).1 = .ok told) :
    ∃ changes, s.Brings d text changes ∧
      (s.didChange d text now).2.2.log = s.log ++ changes := by
  by_cases hdue : s.due d text
  · obtain ⟨events, hr, he⟩ := didChange_of_due hdue now
    rw [he] at h ⊢
    have hn := @log_notify s now Method.didChange (Params.didChange d.uri (d.version + 1) events)
    generalize s.notify Method.didChange (Params.didChange d.uri (d.version + 1) events) now =
      sent at h hn ⊢
    obtain ⟨r, s₁⟩ := sent
    cases r with
    | error e => cases h
    | ok _ => exact ⟨_, (if_pos hdue).mpr ⟨events, hr, rfl⟩, hn rfl⟩
  · refine ⟨[], (if_neg hdue).mpr rfl, ?_⟩
    rcases s.didChange_eq d text now with ⟨-, he⟩ | ⟨hx, -⟩
    · rw [he, List.append_nil]
    · exact absurd hx hdue

theorem wantsText_iff (options : Json) :
    wantsText options = true ↔ options.get? "includeText" = some (.bool true) := by
  unfold wantsText
  cases options.get? "includeText" with
  | none => simp
  | some value => cases value <;> simp [Json.bool?]

/-- A save that is told of has what brings the server's copy to the text before it, and carries
the text of the document behind that, if any. -/
theorem log_didSave (h : (s.didSave d text now).1 = .ok true) :
    ∃ options changes, s.options? Method.didSave d = some options ∧ s.Brings d text changes ∧
      (s.didSave d text now).2.2.log = s.log ++ changes ++
        [.notification Method.didSave (some (Params.didSave d.uri
          (if wantsText options then some (if s.wantsChanges d then text else d.text)
            else none)))] := by
  unfold didSave at h ⊢
  split at h <;> rename_i hd
  · cases h
  rw [if_neg hd]
  split at h
  · cases h
  rename_i options ho
  have htext := s.didChange_text d text now (by simpa [holds] using hd)
  have huri := (s.keeps_didChange d text now).1.uri
  have hlog := @log_didChange s d text now
  generalize s.didChange d text now = changed at h htext huri hlog ⊢
  obtain ⟨r, d₁, s₁⟩ := changed
  cases r with
  | error e => cases h
  | ok told =>
    obtain ⟨changes, hb, hlog⟩ := hlog rfl
    refine ⟨options, changes, ho, hb, ?_⟩
    simp only at h htext huri hlog ⊢
    rw [← hlog, ← htext, ← huri]
    have hn := @log_notify s₁ now Method.didSave
      (Params.didSave d₁.uri (if wantsText options then some d₁.text else none))
    generalize s₁.notify Method.didSave
      (Params.didSave d₁.uri (if wantsText options then some d₁.text else none)) now = sent
      at h hn ⊢
    obtain ⟨r, s₂⟩ := sent
    cases r with
    | error e => cases h
    | ok _ => exact hn rfl

/-- **Saves.** A save that a server is told of is told last, behind what brings the server's copy
of the document to the text that was saved. It carries a text exactly if the registration asks for
it, and that is the text that was saved exactly if the document had it before or the server wants
changes. Otherwise it is the text that the document had. -/
theorem didSave_carries (h : (s.didSave d text now).1 = .ok true) :
    ∃ options changes message, s.options? Method.didSave d = some options ∧
      (s.didSave d text now).2.2.log = s.log ++ changes ++ [message] ∧
      s.Brings d text changes ∧
      (options.get? "includeText" ≠ some (.bool true) →
        message.saves? = some (d.uri, none)) ∧
      (options.get? "includeText" = some (.bool true) →
        (message.saves? = some (d.uri, some text) ↔ text = d.text ∨ s.wantsChanges d = true) ∧
        (s.wantsChanges d = false → message.saves? = some (d.uri, some d.text))) := by
  obtain ⟨options, changes, ho, hb, hlog⟩ := log_didSave h
  refine ⟨options, changes, _, ho, hlog, hb, fun hw => ?_, fun hw => ⟨?_, fun hc => ?_⟩⟩ <;>
    rw [saves?_didSave]
  · rw [if_neg (mt (wantsText_iff options).1 hw)]
  · rw [if_pos ((wantsText_iff options).2 hw)]
    cases s.wantsChanges d <;> simp [eq_comm]
  · rw [if_pos ((wantsText_iff options).2 hw), hc]
    rfl

end Session

/-! ## A save without changes -/

namespace Desk

/-- The answer of a server that wants changes of a kind, and the text of what is saved. -/
def savesWith (kind : Int) : List UInt8 :=
  (Outgoing.reply (.number 1) (.ok (.obj [("capabilities", .obj [("textDocumentSync", .obj
    [("openClose", .bool true), ("change", .int kind),
      ("save", .obj [("includeText", .bool true)])])])]))).body

/-- A document that is open with such a server. -/
def openToSave (kind : Int) : Desk :=
  (start "srv" (.opened .reject) ⟨["python"], none, none, .null⟩ .standard 1 0).run
    [.between { Connection.opened .reject with inbound := [.frame ⟨[], [], savesWith kind⟩] },
      .pump (fun _ => true) 0, .place (.new "file:///a.py" none "python" "a\n"),
      .didOpen "file:///a.py" 0]

/-- A server that wants changes by the whole text gets the text that was saved. -/
theorem didSave_carries_full :
    (openToSave 1).documents.get? "file:///a.py" = some opened ∧
      ((openToSave 1).session.didSave opened "b\n" 0).1 = .ok true ∧
      ∃ changes message, ((openToSave 1).session.didSave opened "b\n" 0).2.2.log =
        (openToSave 1).session.log ++ changes ++ [message] ∧
        message.saves? = some ("file:///a.py", some "b\n") := by
  have h : ((openToSave 1).session.didSave opened "b\n" 0).1 = .ok true := by decide +kernel
  obtain ⟨options, changes, message, ho, hlog, -, -, htext⟩ := Session.didSave_carries h
  have hw : options.get? "includeText" = some (.bool true) := by
    have hs : ((openToSave 1).session.options? Method.didSave opened).bind
        (Json.get? "includeText") = some (.bool true) := by decide +kernel
    rwa [ho] at hs
  exact ⟨by decide +kernel, h, changes, message, hlog, (htext hw).1.2 (.inr (by decide +kernel))⟩

/-- A server that wants no changes gets the text of the last snapshot. -/
theorem stale_save :
    (openToSave 0).documents.get? "file:///a.py" = some opened ∧
      ((openToSave 0).session.didSave opened "b\n" 0).1 = .ok true ∧
      ((openToSave 0).session.options? Method.didSave opened).bind
        (Json.get? "includeText") = some (.bool true) ∧
      (((openToSave 0).session.didSave opened "b\n" 0).2.2.log.filterMap Outgoing.saves?) =
        [("file:///a.py", some "a\n")] := by
  decide +kernel

end Desk

end LanguageClient
