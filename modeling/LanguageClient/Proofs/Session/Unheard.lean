import LanguageClient.Proofs.Session.Service

/-!
# Operations by which a session hears nothing

A session hears of its server in a pump only. Every other operation leaves
what it has heard, the diagnostics and the last completion answer, as it is
(`Unheard`); closing a document and ending the session may drop the answer.
A request about a document is the only thing to come to wait for an answer.

* `unheard_flush` to `unheard_didSave`, `unheard_workspaceSymbols`,
  `unheard_shutdown`: operations that ask nothing about a document.
* `didClose_unheard`, `ask_unheard`: closing a document, and asking about it.
* `kill_heard`: ending the session.
* `unheard_step`: what is done at a desk.
-/
namespace LanguageClient

namespace Session

/-- An operation by which a session hears nothing, and asks nothing about a document but what `P`
says. -/
structure Unheard (P : PendingRequest RequestContext → Prop) (s s' : Session) : Prop where
  diagnostics : s'.diagnostics = s.diagnostics
  cache : s'.cache = s.cache
  pending : ∀ p ∈ s'.client.pending, p.context.isSome = true → p ∈ s.client.pending ∨ P p

variable {P : PendingRequest RequestContext → Prop} {s s' s'' : Session}

theorem Unheard.refl (s : Session) : Unheard P s s :=
  ⟨rfl, rfl, fun _ hp _ => .inl hp⟩

theorem Unheard.trans (h : Unheard P s s') (h' : Unheard P s' s'') :
    Unheard P s s'' where
  diagnostics := h'.diagnostics.trans h.diagnostics
  cache := h'.cache.trans h.cache
  pending p hp hc := by
    rcases h'.pending p hp hc with hp | hp
    · exact h.pending p hp hc
    · exact .inr hp

theorem flush_heard (s : Session) (now : Nat) :
    (s.flush now).2.diagnostics = s.diagnostics ∧ (s.flush now).2.cache = s.cache ∧
      (s.flush now).2.client.pending = s.client.pending := by
  unfold flush Client.takeOutbound
  simp only
  split <;> exact ⟨rfl, rfl, rfl⟩

/-- A client that does something and sends it. -/
theorem unheard_client (s : Session) {c : Client RequestContext}
    (hc : ∀ p ∈ c.pending, p.context.isSome = true → p ∈ s.client.pending ∨ P p) (now : Nat) :
    Unheard P s ({ s with client := c }.flush now).2 := by
  obtain ⟨hd, hcache, hp⟩ := ({ s with client := c } : Session).flush_heard now
  exact ⟨hd, hcache, fun p hm => hc p (hp ▸ hm)⟩

theorem unheard_flush (s : Session) (now : Nat) : Unheard P s (s.flush now).2 :=
  s.unheard_client (fun _ hp _ => .inl hp) now

theorem unheard_notify (s : Session) (method : String) (params : Json) (now : Nat) :
    Unheard P s (s.notify method params now).2 := by
  by_cases hs : s.client.state = .running
  · rw [notify, s.client.notify_of_running method (some params) hs]
    exact unheard_client s
      (c := { s.client with outbound := s.client.outbound ++ [.notification method (some params)] })
      (fun _ hp _ => .inl hp) now
  · rw [notify_refused hs]
    exact .refl s

theorem unheard_request (s : Session) (method : String) (params : Json)
    (context : Option RequestContext) (now : Nat)
    (h : ∀ id, (s.request method params context now).1 = .ok id → context.isSome = true →
      P ⟨id, method, context⟩) :
    Unheard P s (s.request method params context now).2 := by
  by_cases hs : s.client.state = .running
  · simp only [request, s.client.request_of_running method (some params) context hs] at h ⊢
    refine s.unheard_client (fun p hp hc => ?_) now
    rcases List.mem_append.1 hp with hp | hp
    · exact .inl hp
    · obtain rfl := List.mem_singleton.1 hp
      exact .inr (h _ rfl hc)
  · rw [request_refused hs]
    exact .refl s

/-! ## Operations on a document -/

variable (s : Session) (d : Document) (text : String) (now : Nat)

theorem unheard_didOpen : Unheard P s (s.didOpen d now).2.2 := by
  unfold didOpen
  split
  · exact .refl s
  have h : Unheard P s _ := s.unheard_notify Method.didOpen
    (Params.didOpen d.uri d.languageId d.version d.text) now
  simp only
  split <;> rename_i he <;> rw [he] at h <;> exact h

theorem unheard_didChange : Unheard P s (s.didChange d text now).2.2 := by
  rcases s.didChange_eq d text now with ⟨-, he⟩ | ⟨-, events, he⟩ <;> rw [he]
  · exact .refl s
  have h : Unheard P s _ := s.unheard_notify Method.didChange
    (Params.didChange d.uri (d.version + 1) events) now
  split <;> rename_i he' <;> rw [he'] at h <;> exact h

theorem unheard_didSave : Unheard P s (s.didSave d text now).2.2 := by
  unfold didSave
  split
  · exact .refl s
  split
  · exact .refl s
  rename_i options _
  have hs : Unheard P s _ := s.unheard_didChange d text now
  generalize s.didChange d text now = changed at hs ⊢
  obtain ⟨r, d₁, s₁⟩ := changed
  cases r with
  | error e => exact hs
  | ok _ =>
    have h : Unheard P s₁ _ := s₁.unheard_notify Method.didSave
      (Params.didSave d₁.uri (if wantsText options then some d₁.text else none)) now
    simp only at hs ⊢
    split <;> rename_i he <;> rw [he] at h <;> exact hs.trans h

/-- A document that is closed takes a completion answer about it along; else closing leaves the
document with its server, and the session hears nothing. -/
theorem didClose_unheard :
    ((s.didClose d text now).2.1.server = d.server ∧
      Unheard P s (s.didClose d text now).2.2) ∨
    ((s.didClose d text now).2.1.server = none ∧
      ∃ s₁, Unheard P s s₁ ∧ (s.didClose d text now).2.2 = s₁.dropCache d.uri) := by
  unfold didClose
  split
  · exact .inl ⟨rfl, .refl s⟩
  have hs : Unheard P s _ := s.unheard_didChange d text now
  obtain ⟨hk, hserver⟩ := s.keeps_didChange d text now
  generalize s.didChange d text now = changed at hs hk hserver ⊢
  obtain ⟨r, d₁, s₁⟩ := changed
  cases r with
  | error e => exact .inl ⟨hserver, hs⟩
  | ok _ =>
    simp only at hs hserver ⊢
    have hsaid : Unheard P s₁ (if s₁.supports Method.didClose d₁ then
        s₁.notify Method.didClose (Params.document d₁.uri) now else (.ok (), s₁)).2 := by
      split
      · exact s₁.unheard_notify ..
      · exact .refl s₁
    split
    · exact .inl ⟨hserver, hs.trans hsaid⟩
    · exact .inr ⟨rfl, _, hs.trans hsaid, by rw [show d₁.uri = d.uri from hk.uri]⟩

theorem unheard_ensureOpen : Unheard P s (s.ensureOpen d now).2.2 := by
  unfold ensureOpen
  split
  · exact .refl s
  · exact s.unheard_didOpen d now

/-- What a request is, that asks about a document. -/
def Asks (s : Session) (d : Document) (q : DocumentQuery)
    (outcome : Except ClientError RequestOutcome) (p : PendingRequest RequestContext) : Prop :=
  s.supports q.method d = true ∧ outcome = .ok (.sent p.id) ∧ p.method = q.method ∧
    p.context = some (q.context d.uri)

theorem send_unheard (q : DocumentQuery) :
    Unheard (s.Asks d q (s.send d text q now).1) s (s.send d text q now).2.2 := by
  -- the outcome is fixed before the branches are gone through, as it is part of the relation
  generalize hsend : s.send d text q now = sent
  unfold send at hsend
  split at hsend
  · subst hsend
    exact .refl s
  rename_i hsup
  have hsup' : s.supports q.method d = true := by simpa using hsup
  have hopen : ∀ P, Unheard P s _ := fun _ => s.unheard_ensureOpen d now
  have hk := (s.keeps_ensureOpen d now).1
  generalize s.ensureOpen d now = opened at hopen hk hsend
  obtain ⟨r, d₁, s₁⟩ := opened
  rcases r with e | _ | _
  · subst hsend
    exact hopen _
  · subst hsend
    exact hopen _
  simp only at hopen hk hsend
  have hchange : ∀ P, Unheard P s₁ _ := fun _ => s₁.unheard_didChange d₁ text now
  have hk₁ := (s₁.keeps_didChange d₁ text now).1
  generalize s₁.didChange d₁ text now = changed at hchange hk₁ hsend
  obtain ⟨r, d₂, s₂⟩ := changed
  cases r with
  | error e =>
    subst hsend
    exact (hopen _).trans (hchange _)
  | ok _ =>
    simp only at hchange hk₁ hsend
    have huri : d₂.uri = d.uri := hk₁.uri.trans hk.uri
    refine (hopen _).trans ((hchange _).trans ?_)
    have h : ∀ P, _ → Unheard P s₂ _ := fun _ hid =>
      s₂.unheard_request q.method (q.params d₂.uri) (some (q.context d₂.uri)) now hid
    split at hsend <;> rename_i he <;> subst hsend <;> rw [he] at h
    · exact h _ fun _ hid => by cases hid
    · refine h _ fun id hid _ => ⟨hsup', ?_, rfl, by rw [huri]⟩
      cases hid
      rfl

theorem ask_unheard (q : DocumentQuery) :
    Unheard (s.Asks d q (s.ask d text q now).1) s (s.ask d text q now).2.2 := by
  unfold ask
  split
  · exact .refl s
  · exact s.send_unheard d text now q

/-! ## Operations about no document -/

theorem unheard_workspaceSymbols (query : String) :
    Unheard P s (s.workspaceSymbols query now).2 := by
  unfold workspaceSymbols
  simp only
  split
  · exact .refl s
  have h : Unheard P s _ := s.unheard_request Method.workspaceSymbol
    (Params.workspaceSymbols query) none now fun _ _ hc => by cases hc
  split <;> rename_i he <;> rw [he] at h <;> exact h

theorem unheard_shutdown : Unheard P s (s.shutdown now) := by
  refine s.unheard_client (fun p hp hc => ?_) now
  rcases s.client.shutdown_cases with ⟨-, he⟩ | ⟨-, he⟩ | ⟨-, he⟩ <;> rw [he] at hp
  · exact .inl hp
  · rcases List.mem_append.1 hp with hp | hp
    · exact .inl hp
    · rw [List.mem_singleton.1 hp] at hc
      cases hc
  · exact .inl hp

theorem mem_pending_exit {c : Client RequestContext} {p : PendingRequest RequestContext}
    (h : p ∈ c.exit.pending) : p ∈ c.pending := by
  by_cases hs : c.state = .exited
  · rwa [c.exit_of_exited hs] at h
  · rw [c.exit_of_ne hs] at h
    cases h

theorem tearDown_heard :
    (s.tearDown now).diagnostics = s.diagnostics ∧ (s.tearDown now).cache = none ∧
      (s.tearDown now).client.pending = s.client.pending ∧ (s.tearDown now).tornDown = true :=
  ⟨(s.flush_heard now).1, rfl, (s.flush_heard now).2.2, rfl⟩

/-- A session that is killed keeps no completion answer. -/
theorem kill_heard :
    (s.kill now).diagnostics = s.diagnostics ∧
      (s.kill now = s ∨ (s.kill now).cache = none) ∧
      ∀ p ∈ (s.kill now).client.pending, p ∈ s.client.pending := by
  unfold kill
  split
  · exact ⟨rfl, .inl rfl, fun _ hp => hp⟩
  · obtain ⟨hd, hc, hp, -⟩ := tearDown_heard { s with client := s.client.exit } now
    exact ⟨hd, .inr hc, fun p hm => mem_pending_exit (hp ▸ hm)⟩

end Session

/-! ## At a desk -/

/-- Whether the session may come to know other things by an action, or forget what it knows. -/
def DeskAction.isHeard : DeskAction → Bool
  | .pump _ _ => true
  | .didClose _ _ _ => true
  | .shown _ => true
  | .kill _ => true
  | _ => false

namespace Desk

variable {k : Desk} {P : PendingRequest RequestContext → Prop}

/-- What is asked about a document by an action. -/
def Asks (k : Desk) (action : DeskAction) (p : PendingRequest RequestContext) : Prop :=
  ∃ uri text q now d, action = .ask uri text q now ∧ k.documents.get? uri = some d ∧
    k.session.Asks d q (k.session.ask d text q now).1 p

theorem session_place (k : Desk) (d : Document) : (k.place d).session = k.session := by
  unfold place
  split <;> rfl

theorem unheard_onDocument {uri : String} {op : Session → Document → Document × Session}
    (hop : ∀ d, k.documents.get? uri = some d → Session.Unheard P k.session (op k.session d).2) :
    Session.Unheard P k.session (k.onDocument uri op).session := by
  unfold onDocument
  split
  · exact .refl _
  · rename_i d hd
    exact hop d hd

theorem unheard_step (k : Desk) {action : DeskAction} (h : action.isHeard = false) :
    Session.Unheard (k.Asks action) k.session (k.step action).session := by
  cases action with
  | between connection => exact ⟨rfl, rfl, fun _ hp _ => .inl hp⟩
  | place d =>
    rw [show (k.step (.place d)).session = k.session from k.session_place d]
    exact .refl _
  | didOpen uri now => exact unheard_onDocument fun d _ => k.session.unheard_didOpen d now
  | didChange uri text now =>
    exact unheard_onDocument fun d _ => k.session.unheard_didChange d text now
  | didSave uri text now => exact unheard_onDocument fun d _ => k.session.unheard_didSave d text now
  | ask uri text q now =>
    refine unheard_onDocument fun d hd => ?_
    have hs := k.session.ask_unheard d text now q
    exact ⟨hs.diagnostics, hs.cache, fun p hp hc =>
      (hs.pending p hp hc).imp_right fun hx => ⟨uri, text, q, now, d, rfl, hd, hx⟩⟩
  | workspaceSymbols query now => exact k.session.unheard_workspaceSymbols now query
  | takeCapabilitiesChanged => exact ⟨rfl, rfl, fun _ hp _ => .inl hp⟩
  | shutdown now => exact k.session.unheard_shutdown now
  | pump visible now => cases h
  | didClose uri text now => cases h
  | shown uri => cases h
  | kill now => cases h

end Desk

end LanguageClient
