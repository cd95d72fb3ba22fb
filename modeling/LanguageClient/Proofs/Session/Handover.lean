import LanguageClient.Proofs.Client.Run
import LanguageClient.Proofs.Session.Unheard
import Mathlib.Logic.Relation

/-!
# What a session hands to its connection

A session queues messages in its client and hands them over before an
operation ends. The connection is given their frames in that order and
nothing else.

Every operation on a document is made of messages of the user (`Speaks`), so
what one of these does is said once.

* `Hands`: what an operation does that does not end the session.
* `speaks_didOpen` to `speaks_ask`, `speaks_workspaceSymbols`: the operations
  on documents, and the search for symbols.
* `hands_step`: all that is done at a desk, but for pumping and killing.
-/
namespace LanguageClient

/-! ## The way out of a connection -/

namespace Connection

/-- A connection without what has come in and what its owner knows of that. -/
def outgoing (c : Connection) : Connection :=
  { c with inbound := [], readClosed := false }

theorem outgoing_send (c : Connection) (bytes : List UInt8) :
    (c.send bytes).2.outgoing = (c.outgoing.send bytes).2 := by
  unfold send
  split <;> rename_i h
  · rw [if_pos (show (c.outgoing.stopped || !c.outgoing.isWriting) = true from h)]
  · rw [if_neg (show ¬(c.outgoing.stopped || !c.outgoing.isWriting) = true from h)]
    rfl

theorem outgoing_sendAll (frames : List (List UInt8)) :
    ∀ c : Connection, (c.sendAll frames).outgoing = c.outgoing.sendAll frames := by
  induction frames with
  | nil => exact fun _ => rfl
  | cons bytes frames ih =>
    intro c
    exact (ih _).trans (congrArg (sendAll · frames) (c.outgoing_send bytes))

theorem sendAll_append (c : Connection) (frames more : List (List UInt8)) :
    c.sendAll (frames ++ more) = (c.sendAll frames).sendAll more :=
  List.foldl_append

theorem outgoing_close (c : Connection) : c.close.outgoing = c.outgoing.close := by
  unfold close
  split <;> rename_i h
  · rw [if_pos (show c.outgoing.stopped = true from h)]
  · rw [if_neg (show ¬c.outgoing.stopped = true from h)]
    rfl

theorem outgoing_tryReceive (c : Connection) : c.tryReceive.2.outgoing = c.outgoing := by
  unfold tryReceive
  repeat' split
  all_goals rfl

end Connection

namespace Session

/-! ## Handing over -/

/-- What an operation does that does not end the session. Only a message that is handed over starts
polling anew; a session that has exited hands nothing over. -/
structure Hands (s s' : Session) : Prop where
  name : s'.name = s.name
  tornDown : s'.tornDown = s.tornDown
  exited : s'.state = .exited ↔ s.state = .exited
  idle : s.client.outbound = [] → s'.client.outbound = []
  still : s.state = .exited → s.client.outbound = [] → s'.sent = s.sent
  cache : s'.cache = s.cache ∨ s'.cache = none
  schedule : s'.schedule = s.schedule ∨
    (s.tornDown = false ∧ ∃ now, s'.schedule = s.schedule.restart now)
  handed : ∃ ms, s'.sent = s.sent ++ ms ∧
    s'.connection.outgoing = (s.connection.sendAll (ms.map Outgoing.frame)).outgoing

variable {s s' s'' : Session}

theorem Hands.refl (s : Session) : Hands s s where
  name := rfl
  tornDown := rfl
  exited := .rfl
  idle := id
  still _ _ := rfl
  cache := .inl rfl
  schedule := .inl rfl
  handed := ⟨[], (List.append_nil _).symm, rfl⟩

theorem Hands.trans (h : Hands s s') (h' : Hands s' s'') : Hands s s'' where
  name := h'.name.trans h.name
  tornDown := h'.tornDown.trans h.tornDown
  exited := h'.exited.trans h.exited
  idle ho := h'.idle (h.idle ho)
  still hs ho := (h'.still (h.exited.2 hs) (h.idle ho)).trans (h.still hs ho)
  cache := by
    rcases h'.cache with hc' | hc'
    · exact h.cache.imp hc'.trans hc'.trans
    · exact .inr hc'
  schedule := by
    rcases h'.schedule with hs' | ⟨ht, now, hs'⟩
    · exact h.schedule.imp hs'.trans fun ⟨ht, now, hs⟩ => ⟨ht, now, hs'.trans hs⟩
    · refine .inr ⟨h.tornDown ▸ ht, now, ?_⟩
      rcases h.schedule with hs | ⟨-, _, hs⟩ <;> rw [hs', hs]
      rfl
  handed := by
    obtain ⟨ms, hsent, hconnection⟩ := h.handed
    obtain ⟨ms', hsent', hconnection'⟩ := h'.handed
    refine ⟨ms ++ ms', by rw [hsent', hsent, List.append_assoc], ?_⟩
    rw [hconnection', List.map_append, Connection.sendAll_append, Connection.outgoing_sendAll,
      Connection.outgoing_sendAll, hconnection, Connection.outgoing_sendAll]

/-- The client does something, and what it says is handed over. -/
theorem hands_client (s : Session) {c : Client RequestContext}
    (hstate : c.state = .exited ↔ s.state = .exited)
    (hstill : s.state = .exited → c.outbound = s.client.outbound) (now : Nat) :
    Hands s ({ s with client := c }.flush now).2 := by
  by_cases ho : c.outbound = []
  · have he : ({ s with client := c }.flush now).2 = { s with client := c } := by
      simp [flush, Client.takeOutbound, ho]
    rw [he]
    exact ⟨rfl, rfl, hstate, fun _ => ho, fun _ _ => rfl, .inl rfl, .inl rfl,
      ⟨[], (List.append_nil _).symm, rfl⟩⟩
  · have he : ({ s with client := c }.flush now).2 =
        { s with
          client := { c with outbound := [] }
          connection := s.connection.sendAll (c.outbound.map Outgoing.frame)
          sent := s.sent ++ c.outbound
          schedule := if s.tornDown then s.schedule else s.schedule.restart now } := by
      simp [flush, Client.takeOutbound, ho]
    rw [he]
    refine ⟨rfl, rfl, hstate, fun _ => rfl, fun hs hi => ?_, .inl rfl, ?_, ⟨c.outbound, rfl, rfl⟩⟩
    · exact absurd ((hstill hs).trans hi) ho
    · cases ht : s.tornDown with
      | true => exact .inl rfl
      | false => exact .inr ⟨rfl, now, rfl⟩

theorem hands_flush (s : Session) (now : Nat) : Hands s (s.flush now).2 :=
  s.hands_client .rfl (fun _ => rfl) now

/-! ## Messages of the user -/

/-- One message of the user, or that the kept answer is dropped. -/
inductive Utters (s : Session) : Session → Prop
  | notify (method : String) (params : Json) (now : Nat) :
    Utters s (s.notify method params now).2
  | request (method : String) (params : Json) (context : Option RequestContext) (now : Nat) :
    Utters s (s.request method params context now).2
  | drop (uri : String) : Utters s (s.dropCache uri)

theorem Utters.hands (h : Utters s s') : Hands s s' := by
  cases h with
  | notify method params now =>
    by_cases hs : s.client.state = .running
    · have hne : s.state ≠ .exited := fun he => by cases hs.symm.trans he
      simp only [Session.notify, s.client.notify_of_running method (some params) hs]
      exact s.hands_client (c := { s.client with
        outbound := s.client.outbound ++ [.notification method (some params)] }) .rfl
        (fun he => absurd he hne) now
    · rw [notify_refused hs]
      exact .refl s
  | request method params context now =>
    by_cases hs : s.client.state = .running
    · have hne : s.state ≠ .exited := fun he => by cases hs.symm.trans he
      simp only [Session.request, s.client.request_of_running method (some params) context hs]
      exact s.hands_client (c := { s.client with
        outbound := s.client.outbound ++ [.request s.client.nextId method (some params)]
        nextId := s.client.nextId + 1
        pending := s.client.pending ++ [⟨s.client.nextId, method, context⟩] }) .rfl
        (fun he => absurd he hne) now
    · rw [request_refused hs]
      exact .refl s
  | drop uri =>
    unfold dropCache
    split
    · exact ⟨rfl, rfl, .rfl, id, fun _ _ => rfl, .inr rfl, .inl rfl,
        ⟨[], (List.append_nil _).symm, rfl⟩⟩
    · exact .refl s

/-- Some messages of the user, one after the other. -/
abbrev Speaks : Session → Session → Prop :=
  Relation.ReflTransGen Utters

theorem Speaks.hands (h : Speaks s s') : Hands s s' := by
  induction h with
  | refl => exact .refl s
  | tail _ h ih => exact ih.trans h.hands

theorem Speaks.one (h : Utters s s') : Speaks s s' :=
  .single h

variable (s : Session) (d : Document) (text : String) (now : Nat)

theorem speaks_didOpen : Speaks s (s.didOpen d now).2.2 := by
  unfold didOpen
  split
  · exact .refl
  have h : Speaks s _ := .one (.notify Method.didOpen
    (Params.didOpen d.uri d.languageId d.version d.text) now)
  simp only
  split <;> rename_i he <;> rw [he] at h <;> exact h

theorem speaks_didChange : Speaks s (s.didChange d text now).2.2 := by
  rcases s.didChange_eq d text now with ⟨-, he⟩ | ⟨-, events, he⟩ <;> rw [he]
  have h : Speaks s _ := .one (.notify Method.didChange
    (Params.didChange d.uri (d.version + 1) events) now)
  split <;> rename_i he' <;> rw [he'] at h <;> exact h

theorem speaks_didSave : Speaks s (s.didSave d text now).2.2 := by
  unfold didSave
  split
  · exact .refl
  split
  · exact .refl
  rename_i options _
  have hs := s.speaks_didChange d text now
  generalize s.didChange d text now = changed at hs ⊢
  obtain ⟨r, d₁, s₁⟩ := changed
  cases r with
  | error e => exact hs
  | ok _ =>
    have h : Speaks s₁ _ := .one (.notify Method.didSave
      (Params.didSave d₁.uri (if wantsText options then some d₁.text else none)) now)
    simp only at hs ⊢
    split <;> rename_i he <;> rw [he] at h <;> exact hs.trans h

theorem speaks_didClose : Speaks s (s.didClose d text now).2.2 := by
  unfold didClose
  split
  · exact .refl
  have hs := s.speaks_didChange d text now
  generalize s.didChange d text now = changed at hs ⊢
  obtain ⟨r, d₁, s₁⟩ := changed
  cases r with
  | error e => exact hs
  | ok _ =>
    simp only at hs ⊢
    have hsaid : Speaks s₁ (if s₁.supports Method.didClose d₁ then
        s₁.notify Method.didClose (Params.document d₁.uri) now else (.ok (), s₁)).2 := by
      split
      · exact .one (.notify ..)
      · exact .refl
    split
    · exact hs.trans hsaid
    · exact (hs.trans hsaid).tail (.drop _)

theorem speaks_ensureOpen : Speaks s (s.ensureOpen d now).2.2 := by
  unfold ensureOpen
  split
  · exact .refl
  · exact s.speaks_didOpen d now

theorem speaks_ask (q : DocumentQuery) : Speaks s (s.ask d text q now).2.2 := by
  unfold ask
  split
  · exact .refl
  unfold send
  split
  · exact .refl
  have hs := s.speaks_ensureOpen d now
  generalize s.ensureOpen d now = opened at hs ⊢
  obtain ⟨r, d₁, s₁⟩ := opened
  rcases r with e | _ | _
  · exact hs
  · exact hs
  have hs₁ := s₁.speaks_didChange d₁ text now
  simp only at hs ⊢
  generalize s₁.didChange d₁ text now = changed at hs₁ ⊢
  obtain ⟨r, d₂, s₂⟩ := changed
  cases r with
  | error e => exact hs.trans hs₁
  | ok _ =>
    have h : Speaks s₂ _ := .one (.request q.method (q.params d₂.uri) (some (q.context d₂.uri)) now)
    simp only at hs₁ ⊢
    split <;> rename_i he <;> rw [he] at h <;> exact (hs.trans hs₁).trans h

theorem speaks_workspaceSymbols (query : String) :
    Speaks s (s.workspaceSymbols query now).2 := by
  unfold workspaceSymbols
  simp only
  split
  · exact .refl
  have h : Speaks s _ := .one (.request Method.workspaceSymbol
    (Params.workspaceSymbols query) none now)
  split <;> rename_i he <;> rw [he] at h <;> exact h

/-! ## The other operations -/

theorem hands_shown (uri : String) : Hands s (s.shown uri).2 := by
  unfold shown
  split
  · exact ⟨rfl, rfl, .rfl, id, fun _ _ => rfl, .inl rfl, .inl rfl,
      ⟨[], (List.append_nil _).symm, rfl⟩⟩
  · exact .refl s

theorem hands_takeCapabilitiesChanged : Hands s s.takeCapabilitiesChanged.2 :=
  ⟨rfl, rfl, .rfl, id, fun _ _ => rfl, .inl rfl, .inl rfl,
    ⟨[], (List.append_nil _).symm, rfl⟩⟩

theorem hands_shutdown : Hands s (s.shutdown now) := by
  refine s.hands_client ?_ (fun he => ?_) now
  · rcases s.client.shutdown_cases with ⟨h | h, he⟩ | ⟨h, he⟩ | ⟨-, he⟩ <;> rw [he]
    · exact .rfl
    · exact .rfl
    · exact iff_of_false (by simp [Client.stopping]) (by simp [state, h])
    · exact .rfl
  · rcases s.client.shutdown_cases with ⟨-, he'⟩ | ⟨h, -⟩ | ⟨-, he'⟩
    · rw [he']
    · cases h.symm.trans he
    · rw [he']

end Session

/-! ## At a desk -/

/-- Whether an action may end the session, or gives it another connection. -/
def DeskAction.mayEnd : DeskAction → Bool
  | .between _ => true
  | .pump _ _ => true
  | .kill _ => true
  | _ => false

namespace Desk

theorem hands_onDocument {k : Desk} {uri : String} {op : Session → Document → Document × Session}
    (hop : ∀ d, k.session.Hands (op k.session d).2) :
    k.session.Hands (k.onDocument uri op).session := by
  unfold onDocument
  split
  · exact .refl _
  · exact hop _

theorem hands_step (k : Desk) {action : DeskAction} (h : action.mayEnd = false) :
    k.session.Hands (k.step action).session := by
  cases action with
  | place d =>
    rw [show (k.step (.place d)).session = k.session from k.session_place d]
    exact .refl _
  | didOpen uri now => exact hands_onDocument fun d => (k.session.speaks_didOpen d now).hands
  | didChange uri text now =>
    exact hands_onDocument fun d => (k.session.speaks_didChange d text now).hands
  | didSave uri text now =>
    exact hands_onDocument fun d => (k.session.speaks_didSave d text now).hands
  | didClose uri text now =>
    exact hands_onDocument fun d => (k.session.speaks_didClose d text now).hands
  | ask uri text q now =>
    exact hands_onDocument fun d => (k.session.speaks_ask d text now q).hands
  | workspaceSymbols query now => exact (k.session.speaks_workspaceSymbols now query).hands
  | shown uri => exact k.session.hands_shown uri
  | takeCapabilitiesChanged => exact k.session.hands_takeCapabilitiesChanged
  | shutdown now => exact k.session.hands_shutdown now
  | between connection => cases h
  | pump visible now => cases h
  | kill now => cases h

end Desk

end LanguageClient
