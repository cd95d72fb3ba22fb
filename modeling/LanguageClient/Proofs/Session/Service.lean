import LanguageClient.Proofs.Session.Refusal

/-!
# What operations leave as it is

An operation on a document says something and may attach the document to the
session or detach it. All else stays (`Steady`, `Stays`): what the server can
do, whether that is news to the caller, and what the document is.

* `steady_didOpen` to `steady_ask`: the operations on a document.
* `steady_workspaceSymbols`, `steady_shown`: the others.
* `didOpen_document`: when a document is opened.
* `server_didSave`, `server_ask`: which operations leave a document with its server.
-/
namespace LanguageClient

namespace Session

/-- An operation that leaves alone where the connection stands and what the server can do. -/
structure Steady (s s' : Session) : Prop where
  name : s'.name = s.name
  state : s'.state = s.state
  registry : s'.client.registry = s.client.registry
  capabilitiesChanged : s'.capabilitiesChanged = s.capabilitiesChanged
  tornDown : s'.tornDown = s.tornDown
  idle : s.client.outbound = [] → s'.client.outbound = []

end Session

/-- A document that may have been attached to a session with the given name or detached, or be at
another text. -/
structure Document.Stays (name : String) (d d' : Document) : Prop where
  languageId : d'.languageId = d.languageId
  path : d'.path = d.path
  server : ∀ other, d'.server = some other → d.server = some other ∨ other = name

namespace Document

variable {name : String} {d d' d'' : Document}

theorem Stays.refl (name : String) (d : Document) : Stays name d d :=
  ⟨rfl, rfl, fun _ h => .inl h⟩

theorem Stays.trans (h : Stays name d d') (h' : Stays name d' d'') : Stays name d d'' where
  languageId := h'.languageId.trans h.languageId
  path := h'.path.trans h.path
  server other hd := by
    rcases h'.server other hd with hd | hd
    · exact h.server other hd
    · exact .inr hd

theorem stays_attached (name : String) (d : Document) :
    Stays name d { d with server := some name } :=
  ⟨rfl, rfl, fun _ h => .inr (Option.some.inj h).symm⟩

theorem stays_detached (name : String) (d : Document) :
    Stays name d { d with server := none } :=
  ⟨rfl, rfl, fun _ h => by cases h⟩

theorem stays_moved (name : String) (d : Document) (text : String) :
    Stays name d (d.moved text) :=
  ⟨rfl, rfl, fun _ h => .inl h⟩

end Document

namespace Session

variable {s s' s'' : Session} {d d' : Document}

theorem Steady.refl (s : Session) : Steady s s :=
  ⟨rfl, rfl, rfl, rfl, rfl, id⟩

theorem Steady.trans (h : Steady s s') (h' : Steady s' s'') : Steady s s'' where
  name := h'.name.trans h.name
  state := h'.state.trans h.state
  registry := h'.registry.trans h.registry
  capabilitiesChanged := h'.capabilitiesChanged.trans h.capabilitiesChanged
  tornDown := h'.tornDown.trans h.tornDown
  idle hs := h'.idle (h.idle hs)

theorem Steady.handles (h : Steady s s') (d : Document) : s'.handles d = s.handles d := by
  have hstate : s'.client.state = s.client.state := h.state
  simp only [Session.handles, Session.supports, Client.isRunning, h.registry, hstate]

/-- A server wants a document by its language and its path. -/
theorem handles_stays {name : String} (h : d.Stays name d') : s.handles d' = s.handles d := by
  simp only [handles, supports, h.languageId, h.path]

theorem idle_flush (s : Session) (now : Nat) : (s.flush now).2.client.outbound = [] := by
  unfold flush Client.takeOutbound
  by_cases h : s.client.outbound = []
  · simp [h]
  · simp [h]

theorem steady_flush (s : Session) (now : Nat) : Steady s (s.flush now).2 := by
  refine ⟨(s.flush_log now).2.1, (s.flush_log now).2.2.1, ?_, ?_, ?_, fun _ => s.idle_flush now⟩ <;>
  · unfold flush
    simp only
    split <;> rfl

theorem steady_notify (s : Session) (method : String) (params : Json) (now : Nat) :
    Steady s (s.notify method params now).2 := by
  by_cases hs : s.client.state = .running
  · simp only [notify, s.client.notify_of_running method (some params) hs]
    have h := steady_flush { s with client :=
      { s.client with outbound := s.client.outbound ++ [.notification method (some params)] } } now
    exact ⟨h.name, h.state, h.registry, h.capabilitiesChanged, h.tornDown, fun _ => idle_flush ..⟩
  · rw [notify_refused hs]
    exact .refl s

theorem steady_request (s : Session) (method : String) (params : Json)
    (context : Option RequestContext) (now : Nat) :
    Steady s (s.request method params context now).2 := by
  by_cases hs : s.client.state = .running
  · simp only [request, s.client.request_of_running method (some params) context hs]
    have h := steady_flush { s with client :=
      { s.client with
        outbound := s.client.outbound ++ [.request s.client.nextId method (some params)]
        nextId := s.client.nextId + 1
        pending := s.client.pending ++ [⟨s.client.nextId, method, context⟩] } } now
    exact ⟨h.name, h.state, h.registry, h.capabilitiesChanged, h.tornDown, fun _ => idle_flush ..⟩
  · rw [request_refused hs]
    exact .refl s

variable (s : Session) (d : Document) (text : String) (now : Nat)

theorem steady_didOpen : s.Steady (s.didOpen d now).2.2 ∧ d.Stays s.name (s.didOpen d now).2.1 := by
  unfold didOpen
  split
  · exact ⟨.refl s, .refl _ d⟩
  have h := s.steady_notify Method.didOpen
    (Params.didOpen d.uri d.languageId d.version d.text) now
  simp only
  split <;> rename_i s' he <;> rw [he] at h
  · exact ⟨h, .refl _ d⟩
  · exact ⟨h, h.name ▸ d.stays_attached s'.name⟩

theorem steady_didChange :
    s.Steady (s.didChange d text now).2.2 ∧ d.Stays s.name (s.didChange d text now).2.1 := by
  rcases s.didChange_eq d text now with ⟨-, he⟩ | ⟨-, events, he⟩ <;> rw [he]
  · exact ⟨.refl s, .refl _ d⟩
  have h := s.steady_notify Method.didChange (Params.didChange d.uri (d.version + 1) events) now
  split <;> rename_i he' <;> rw [he'] at h
  · exact ⟨h, d.stays_moved _ text⟩
  · exact ⟨h, d.stays_moved _ text⟩

theorem steady_didSave :
    s.Steady (s.didSave d text now).2.2 ∧ d.Stays s.name (s.didSave d text now).2.1 := by
  unfold didSave
  split
  · exact ⟨.refl s, .refl _ d⟩
  split
  · exact ⟨.refl s, .refl _ d⟩
  rename_i options _
  obtain ⟨hs, hd⟩ := s.steady_didChange d text now
  generalize s.didChange d text now = changed at hs hd ⊢
  obtain ⟨r, d₁, s₁⟩ := changed
  cases r with
  | error e => exact ⟨hs, hd⟩
  | ok _ =>
    have h := s₁.steady_notify Method.didSave
      (Params.didSave d₁.uri (if wantsText options then some d₁.text else none)) now
    simp only at hs hd ⊢
    split <;> rename_i he <;> rw [he] at h
    · exact ⟨hs.trans h, hd⟩
    · exact ⟨hs.trans h, hd⟩

theorem steady_dropCache (uri : String) : s.Steady (s.dropCache uri) := by
  unfold dropCache
  split
  · exact ⟨rfl, rfl, rfl, rfl, rfl, id⟩
  · exact .refl s

theorem steady_didClose :
    s.Steady (s.didClose d text now).2.2 ∧ d.Stays s.name (s.didClose d text now).2.1 := by
  unfold didClose
  split
  · exact ⟨.refl s, .refl _ d⟩
  obtain ⟨hs, hd⟩ := s.steady_didChange d text now
  generalize s.didChange d text now = changed at hs hd ⊢
  obtain ⟨r, d₁, s₁⟩ := changed
  cases r with
  | error e => exact ⟨hs, hd⟩
  | ok _ =>
    simp only at hs hd ⊢
    have hsaid : Steady s₁ (if s₁.supports Method.didClose d₁ then
        s₁.notify Method.didClose (Params.document d₁.uri) now else (.ok (), s₁)).2 := by
      split
      · exact s₁.steady_notify ..
      · exact .refl s₁
    split
    · exact ⟨hs.trans hsaid, hd⟩
    · exact ⟨(hs.trans hsaid).trans (steady_dropCache _ _), hd.trans (d₁.stays_detached _)⟩

theorem steady_ensureOpen :
    s.Steady (s.ensureOpen d now).2.2 ∧ d.Stays s.name (s.ensureOpen d now).2.1 := by
  unfold ensureOpen
  split
  · exact ⟨.refl s, .refl _ d⟩
  · exact s.steady_didOpen d now

theorem steady_ask (q : DocumentQuery) :
    s.Steady (s.ask d text q now).2.2 ∧ d.Stays s.name (s.ask d text q now).2.1 := by
  unfold ask
  split
  · exact ⟨.refl s, .refl _ d⟩
  unfold send
  split
  · exact ⟨.refl s, .refl _ d⟩
  obtain ⟨hs, hd⟩ := s.steady_ensureOpen d now
  generalize s.ensureOpen d now = opened at hs hd ⊢
  obtain ⟨r, d₁, s₁⟩ := opened
  rcases r with e | _ | _
  · exact ⟨hs, hd⟩
  · exact ⟨hs, hd⟩
  obtain ⟨hs₁, hd₁⟩ := s₁.steady_didChange d₁ text now
  simp only at hs hd ⊢
  rw [hs.name] at hd₁
  generalize s₁.didChange d₁ text now = changed at hs₁ hd₁ ⊢
  obtain ⟨r, d₂, s₂⟩ := changed
  cases r with
  | error e => exact ⟨hs.trans hs₁, hd.trans hd₁⟩
  | ok _ =>
    have h := s₂.steady_request q.method (q.params d₂.uri) (some (q.context d₂.uri)) now
    simp only at hs₁ hd₁ ⊢
    split <;> rename_i he <;> rw [he] at h
    · exact ⟨(hs.trans hs₁).trans h, hd.trans hd₁⟩
    · exact ⟨(hs.trans hs₁).trans h, hd.trans hd₁⟩

theorem steady_workspaceSymbols (query : String) : s.Steady (s.workspaceSymbols query now).2 := by
  unfold workspaceSymbols
  simp only
  split
  · exact .refl s
  have h := s.steady_request Method.workspaceSymbol (Params.workspaceSymbols query) none now
  split <;> rename_i he <;> rw [he] at h <;> exact h

theorem steady_shown (uri : String) : s.Steady (s.shown uri).2 := by
  unfold shown
  split
  · exact ⟨rfl, rfl, rfl, rfl, rfl, id⟩
  · exact .refl s

/-- A document that is not open is opened exactly if the server wants it. -/
theorem didOpen_document : (s.didOpen d now).2.1 =
    if !d.isOpen && s.handles d then { d with server := some s.name } else d := by
  unfold didOpen handles Client.isRunning
  by_cases ho : d.isOpen
  · simp [ho]
  by_cases hd : s.supports Method.didOpen d
  · by_cases hs : s.client.state = .running
    · have hn := notify_ok (s := s) hs Method.didOpen
        (Params.didOpen d.uri d.languageId d.version d.text) now
      have hname := (s.steady_notify Method.didOpen
        (Params.didOpen d.uri d.languageId d.version d.text) now).name
      simp only [ho, hd, hs, Bool.not_true, Bool.or_self, Bool.false_eq_true, if_false,
        Bool.not_false, decide_true, Bool.and_self, if_true]
      split <;> rename_i he <;> rw [he] at hn hname
      · cases hn
      · exact congrArg (fun n => { d with server := some n }) hname
    · simp [ho, hd, hs, notify_refused (s := s) hs]
  · simp [ho, hd]

/-! ## The server of a document -/

theorem server_didSave : (s.didSave d text now).2.1.server = d.server := by
  unfold didSave
  split
  · rfl
  split
  · rfl
  have hserver := (s.keeps_didChange d text now).2
  generalize s.didChange d text now = changed at hserver ⊢
  obtain ⟨r, d₁, s₁⟩ := changed
  cases r with
  | error e => exact hserver
  | ok _ =>
    simp only at hserver ⊢
    split <;> exact hserver

theorem server_ensureOpen :
    (s.ensureOpen d now).2.1.server = d.server ∨
      (d.server = none ∧ (s.ensureOpen d now).2.1.server = some s.name) := by
  unfold ensureOpen
  split
  · exact .inl rfl
  · rw [s.didOpen_document d now]
    split <;> rename_i h
    · exact .inr ⟨by simpa [Document.isOpen] using (Bool.and_eq_true_iff.1 h).1, rfl⟩
    · exact .inl rfl

/-- A request leaves a document with its server, or opens it if it has none. -/
theorem server_ask (q : DocumentQuery) :
    (s.ask d text q now).2.1.server = d.server ∨
      (d.server = none ∧ (s.ask d text q now).2.1.server = some s.name) := by
  unfold ask
  split
  · exact .inl rfl
  unfold send
  split
  · exact .inl rfl
  have hopen := s.server_ensureOpen d now
  generalize s.ensureOpen d now = opened at hopen ⊢
  obtain ⟨r, d₁, s₁⟩ := opened
  rcases r with e | _ | _
  · exact hopen
  · exact hopen
  have hserver := (s₁.keeps_didChange d₁ text now).2
  simp only at hopen ⊢
  generalize s₁.didChange d₁ text now = changed at hserver ⊢
  obtain ⟨r, d₂, s₂⟩ := changed
  simp only at hserver
  rw [← hserver] at hopen
  cases r with
  | error e => exact hopen
  | ok _ =>
    simp only
    split <;> exact hopen

end Session

end LanguageClient
