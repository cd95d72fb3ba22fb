import LanguageClient.Proofs.Session.Log

/-!
# The server's copies agree

A host keeps documents and calls a session on them, in any order; between its
calls the connection changes as it likes. `Keeps` is what an operation does
to a document: if the mirror fits the document before, it takes in what is
said and fits afterwards. With `Carries` for all that is about no document,
every operation keeps the invariant `Agrees`.

* `run_agrees`: replaying all that was queued, a mirror refuses nothing, and
  while the client runs it has each open document at its version and text.
-/
namespace LanguageClient

/-- If a document is open with a server of that name, the mirror has it as it is. -/
def Mirror.Fits (m : Mirror) (name : String) (d : Document) : Prop :=
  d.server = some name → m.get? d.uri = some (d.version, d.text)

namespace Session

/-- What a mirror of the server has after all that was queued. -/
def mirror? (s : Session) : Option Mirror :=
  Mirror.replay? [] s.log

/-! ## Operations on a document -/

/-- What an operation does that leaves `s` and `d` as `s'` and `d'`. -/
structure Keeps (s : Session) (d : Document) (s' : Session) (d' : Document) : Prop where
  name : s'.name = s.name
  uri : d'.uri = d.uri
  state : s'.state = s.state
  stage : Lifecycle.Stage s.sent s.client → Lifecycle.Stage s'.sent s'.client
  early : s.state ≠ .running → d'.server = some s.name → d.server = some s.name
  fits : ∀ m, s.mirror? = some m → (s.state = .running → m.Fits s.name d) →
    ∃ m', s'.mirror? = some m' ∧ (s.state = .running → m'.Fits s.name d') ∧
      ∀ uri, uri ≠ d.uri → m'.get? uri = m.get? uri

variable {s s' s'' : Session} {d d' d'' : Document} {now : Nat}

theorem Keeps.trans (h : Keeps s d s' d') (h' : Keeps s' d' s'' d'') : Keeps s d s'' d'' where
  name := h'.name.trans h.name
  uri := h'.uri.trans h.uri
  state := h'.state.trans h.state
  stage hs := h'.stage (h.stage hs)
  early hr hd := by
    refine h.early hr ?_
    rw [← h.name] at hd ⊢
    exact h'.early (by rw [h.state]; exact hr) hd
  fits m hm hf := by
    obtain ⟨m₁, hm₁, hf₁, ho₁⟩ := h.fits m hm hf
    have hf₁' : s'.state = .running → m₁.Fits s'.name d' := by
      rw [h.state, h.name]; exact hf₁
    obtain ⟨m₂, hm₂, hf₂, ho₂⟩ := h'.fits m₁ hm₁ hf₁'
    rw [h.state, h.name] at hf₂
    refine ⟨m₂, hm₂, hf₂, fun uri hu => ?_⟩
    rw [ho₂ uri (by rw [h.uri]; exact hu), ho₁ uri hu]

theorem Keeps.refl (s : Session) (d : Document) : Keeps s d s d :=
  ⟨rfl, rfl, rfl, id, fun _ => id, fun m hm hf => ⟨m, hm, hf, fun _ _ => rfl⟩⟩

/-- A document of which nothing was said, because the client does not run. -/
theorem Keeps.of_idle (hs : s.state ≠ .running) (hu : d'.uri = d.uri)
    (hd : d'.server = d.server) : Keeps s d s d' where
  name := rfl
  uri := hu
  state := rfl
  stage := id
  early _ := by rw [hd]; exact id
  fits m hm _ := ⟨m, hm, fun hr => absurd hr hs, fun _ _ => rfl⟩

/-- A document of which a message was said that the mirror takes in. -/
theorem Queues.keeps {message : Outgoing} (h : Queues s s' message) (hs : s.state = .running)
    (hu : d'.uri = d.uri)
    (ha : ∀ m : Mirror, m.Fits s.name d →
      ∃ m', m.accept? message = some m' ∧ m'.Fits s.name d' ∧
        ∀ uri, uri ≠ d.uri → m'.get? uri = m.get? uri) : Keeps s d s' d' where
  name := h.name
  uri := hu
  state := h.state
  stage := h.stage
  early hr := absurd hs hr
  fits m hm hf := by
    obtain ⟨m', hm', hf', ho⟩ := ha m (hf hs)
    refine ⟨m', ?_, fun _ => hf', ho⟩
    rw [mirror?] at hm
    rw [mirror?, h.said, Mirror.replay?_append, hm, Option.bind_some, Mirror.replay?_singleton, hm']

/-- A message that only asks for the document to be held. -/
theorem Queues.keeps_held {message : Outgoing} (h : Queues s s' message) (hs : s.state = .running)
    (hd : d.server = some s.name)
    (ha : ∀ (m : Mirror) (known : Int × String), m.get? d.uri = some known →
      m.accept? message = some m) : Keeps s d s' d :=
  h.keeps hs rfl fun m hf => ⟨m, ha m _ (hf hd), hf, fun _ _ => rfl⟩

/-- A document that is put aside without a word. -/
theorem Keeps.detach (s : Session) (d : Document) : Keeps s d s { d with server := none } where
  name := rfl
  uri := rfl
  state := rfl
  stage := id
  early _ hd := by cases hd
  fits m hm _ := ⟨m, hm, fun _ hd => (by cases hd), fun _ _ => rfl⟩

theorem query_mem (q : DocumentQuery) : q.method ∈ Mirror.documentRequests := by
  cases q with
  | places kind _ =>
    cases kind <;> simp [DocumentQuery.method, LocationKind.method, Mirror.documentRequests]
  | formatting _ range => cases range <;> simp [DocumentQuery.method, Mirror.documentRequests]
  | _ => simp [DocumentQuery.method, Mirror.documentRequests]

theorem isUser_query (q : DocumentQuery) : Lifecycle.IsUser q.method := by
  have h : ∀ method ∈ Mirror.documentRequests, Lifecycle.IsUser method := by decide
  exact h q.method (query_mem q)

/-- Opening: a document that was opened is open. -/
theorem keeps_didOpen (s : Session) (d : Document) (now : Nat) :
    Keeps s d (s.didOpen d now).2.2 (s.didOpen d now).2.1 ∧
      ((s.didOpen d now).1 = .ok true →
        (s.didOpen d now).2.1.server = some (s.didOpen d now).2.2.name) := by
  have hm : Lifecycle.IsUser Method.didOpen := by decide
  unfold didOpen
  split
  · exact ⟨.refl s d, fun h => by cases h⟩
  · simp only
    rcases s.notify_cases hm (Params.didOpen d.uri d.languageId d.version d.text) now with
      ⟨hs, s', he, hqueued⟩ | ⟨hs, e, he⟩
    · rw [he]
      refine ⟨hqueued.keeps hs rfl fun m _ => ?_, fun _ => rfl⟩
      exact ⟨m.put d.uri (d.version, d.text), Mirror.accept?_didOpen ..,
        fun _ => Keyed.get?_put_self .., fun uri hu => Keyed.get?_put_of_ne _ _ hu⟩
    · rw [he]
      exact ⟨.refl s d, fun h => by cases h⟩

theorem syncTo_cases (d : Document) (kind : SyncKind) (text : String) :
    d.syncTo kind text = (none, d) ∨
    ∃ events, ChangeEvent.replay? d.text events = some text ∧
      d.syncTo kind text =
        (some ⟨d.version + 1, events⟩, { d with text := text, version := d.version + 1 }) := by
  unfold Document.syncTo
  by_cases h : Sync.changes kind d.text text = []
  · left; simp [h]
  · right
    exact ⟨_, Sync.replay?_changes h, by simp [h]⟩

/-- Changing: a document stays with the server it is with. -/
theorem keeps_didChange (s : Session) (d : Document) (text : String) (now : Nat) :
    Keeps s d (s.didChange d text now).2.2 (s.didChange d text now).2.1 ∧
      (s.didChange d text now).2.1.server = d.server := by
  have hm : Lifecycle.IsUser Method.didChange := by decide
  unfold didChange
  split
  · exact ⟨.refl s d, rfl⟩
  rename_i hd
  have hd' : d.server = some s.name := by simpa [holds] using hd
  split
  · exact ⟨.refl s d, rfl⟩
  rename_i options _
  rcases syncTo_cases d (.ofOptions options) text with he | ⟨events, hr, he⟩
  · rw [he]
    exact ⟨.refl s d, rfl⟩
  rw [he]
  simp only
  rcases s.notify_cases hm (Params.didChange d.uri (d.version + 1) events) now with
    ⟨hs, s', hn, hqueued⟩ | ⟨hs, e, hn⟩
  · rw [hn]
    refine ⟨hqueued.keeps hs rfl fun m hf => ?_, rfl⟩
    exact ⟨m.put d.uri (d.version + 1, text), Mirror.accept?_didChange (hf hd') hr,
      fun _ => Keyed.get?_put_self .., fun uri hu => Keyed.get?_put_of_ne _ _ hu⟩
  · rw [hn]
    exact ⟨.of_idle hs rfl rfl, rfl⟩

theorem keeps_didSave (s : Session) (d : Document) (text : String) (now : Nat) :
    Keeps s d (s.didSave d text now).2.2 (s.didSave d text now).2.1 := by
  have hm : Lifecycle.IsUser Method.didSave := by decide
  unfold didSave
  split
  · exact .refl s d
  rename_i hd
  have hd' : d.server = some s.name := by simpa [holds] using hd
  split
  · exact .refl s d
  rename_i options _
  obtain ⟨hk, hserver⟩ := keeps_didChange s d text now
  generalize s.didChange d text now = changed at hk hserver ⊢
  obtain ⟨r, d₁, s₁⟩ := changed
  cases r with
  | error e => exact hk
  | ok _ =>
    simp only at hk hserver ⊢
    have hd₁ : d₁.server = some s₁.name := by rw [hserver, hk.name, hd']
    rcases s₁.notify_cases hm
        (Params.didSave d₁.uri (if wantsText options then some d₁.text else none)) now with
      ⟨hs, s₂, hn, hqueued⟩ | ⟨hs, e, hn⟩
    · rw [hn]
      exact hk.trans (hqueued.keeps_held hs hd₁ fun m known h => Mirror.accept?_didSave h _)
    · rw [hn]
      exact hk

theorem carries_dropCache (s : Session) (uri : String) : Carries s (s.dropCache uri) := by
  unfold dropCache
  split <;> exact .of_eq rfl rfl rfl

/-- What is said of no document leaves documents alone. -/
theorem Keeps.of_quiet (h : Carries s s') (hs : s'.state = s.state) (hl : s'.log = s.log) :
    Keeps s d s' d where
  name := h.name
  uri := rfl
  state := hs
  stage := h.stage
  early _ := id
  fits m hm hf := ⟨m, by rw [mirror?, hl]; exact hm, hf, fun _ _ => rfl⟩

theorem keeps_dropCache (s : Session) (d : Document) (uri : String) :
    Keeps s d (s.dropCache uri) d := by
  have h := carries_dropCache s uri
  unfold dropCache at h ⊢
  split at h <;> rename_i hc
  · rw [if_pos hc]; exact .of_quiet h rfl rfl
  · rw [if_neg hc]; exact .refl s d

theorem keeps_didClose (s : Session) (d : Document) (text : String) (now : Nat) :
    Keeps s d (s.didClose d text now).2.2 (s.didClose d text now).2.1 := by
  have hm : Lifecycle.IsUser Method.didClose := by decide
  unfold didClose
  split
  · exact .refl s d
  rename_i hd
  have hd' : d.server = some s.name := by simpa [holds] using hd
  obtain ⟨hk, hserver⟩ := keeps_didChange s d text now
  generalize s.didChange d text now = changed at hk hserver ⊢
  obtain ⟨r, d₁, s₁⟩ := changed
  cases r with
  | error e => exact hk
  | ok _ =>
    simp only at hk hserver ⊢
    have hd₁ : d₁.server = some s₁.name := by rw [hserver, hk.name, hd']
    by_cases hc : s₁.supports Method.didClose d₁
    · rw [if_pos hc]
      rcases s₁.notify_cases hm (Params.document d₁.uri) now with
        ⟨hs, s₂, hn, hqueued⟩ | ⟨hs, e, hn⟩
      · rw [hn]
        have hclosed : Keeps s₁ d₁ s₂ { d₁ with server := none } :=
          hqueued.keeps hs rfl fun m hf => ⟨m.erase d₁.uri, Mirror.accept?_didClose (hf hd₁),
            fun h => (by cases h), fun uri hu => Keyed.get?_erase_of_ne m hu⟩
        exact (hk.trans hclosed).trans (keeps_dropCache s₂ _ d₁.uri)
      · rw [hn]
        exact hk
    · rw [if_neg hc]
      exact (hk.trans (.detach s₁ d₁)).trans (keeps_dropCache s₁ _ d₁.uri)

theorem keeps_ensureOpen (s : Session) (d : Document) (now : Nat) :
    Keeps s d (s.ensureOpen d now).2.2 (s.ensureOpen d now).2.1 ∧
      ((s.ensureOpen d now).1 = .ok true →
        (s.ensureOpen d now).2.1.server = some (s.ensureOpen d now).2.2.name) := by
  unfold ensureOpen
  split
  · rename_i hd
    exact ⟨.refl s d, fun _ => by simpa [holds] using hd⟩
  · exact keeps_didOpen s d now

theorem keeps_send (s : Session) (d : Document) (text : String) (q : DocumentQuery) (now : Nat) :
    Keeps s d (s.send d text q now).2.2 (s.send d text q now).2.1 := by
  unfold send
  split
  · exact .refl s d
  obtain ⟨hk, hopen⟩ := keeps_ensureOpen s d now
  generalize s.ensureOpen d now = opened at hk hopen ⊢
  obtain ⟨r, d₁, s₁⟩ := opened
  rcases r with e | _ | _
  · exact hk
  · exact hk
  simp only at hk hopen ⊢
  have hd₁ : d₁.server = some s₁.name := hopen trivial
  obtain ⟨hk₁, hserver⟩ := keeps_didChange s₁ d₁ text now
  generalize s₁.didChange d₁ text now = changed at hk₁ hserver ⊢
  obtain ⟨r, d₂, s₂⟩ := changed
  cases r with
  | error e => exact hk.trans hk₁
  | ok _ =>
    simp only at hk₁ hserver ⊢
    have hd₂ : d₂.server = some s₂.name := by rw [hserver, hk₁.name, hd₁]
    rcases s₂.request_cases (isUser_query q) (q.params d₂.uri) (some (q.context d₂.uri)) now with
      ⟨hs, id, s₃, hn, hqueued⟩ | ⟨hs, e, hn⟩
    · rw [hn]
      exact (hk.trans hk₁).trans
        (hqueued.keeps_held hs hd₂ fun m known h => Mirror.accept?_request h id q)
    · rw [hn]
      exact hk.trans hk₁

theorem keeps_ask (s : Session) (d : Document) (text : String) (q : DocumentQuery) (now : Nat) :
    Keeps s d (s.ask d text q now).2.2 (s.ask d text q now).2.1 := by
  unfold ask
  split
  · exact .refl s d
  · exact keeps_send s d text q now

end Session

/-! ## Runs -/

/-- A session and the documents of its host, by their uris. -/
structure Desk where
  session : Session
  documents : Keyed Document

/-- What happens at a desk. -/
inductive DeskAction where
  /-- The server, the peer and the loops of the connection do what they like. -/
  | between (connection : Connection)
  /-- The host comes with a document of its own. -/
  | place (d : Document)
  | pump (visible : String → Bool) (now : Nat)
  | didOpen (uri : String) (now : Nat)
  | didChange (uri text : String) (now : Nat)
  | didSave (uri text : String) (now : Nat)
  | didClose (uri text : String) (now : Nat)
  | ask (uri text : String) (q : DocumentQuery) (now : Nat)
  | workspaceSymbols (query : String) (now : Nat)
  | shown (uri : String)
  | takeCapabilitiesChanged
  | shutdown (now : Nat)
  | kill (now : Nat)

namespace Desk

def start (name : String) (connection : Connection) (options : ClientOptions)
    (completion : CompletionSettings) (processId now : Nat) : Desk :=
  ⟨.start name connection options completion processId now, []⟩

/-- Puts a document on the desk, unless one with its uri is open with the server or it claims
itself to be. -/
def place (k : Desk) (d : Document) : Desk :=
  if d.server = some k.session.name ∨
      (k.documents.get? d.uri).any k.session.holds then k
  else { k with documents := k.documents.put d.uri d }

/-- An operation on the document with a uri, if there is one. -/
def onDocument (k : Desk) (uri : String) (op : Session → Document → Document × Session) : Desk :=
  match k.documents.get? uri with
  | none => k
  | some d => ⟨(op k.session d).2, k.documents.put uri (op k.session d).1⟩

def step (k : Desk) : DeskAction → Desk
  | .between connection => { k with session := { k.session with connection := connection } }
  | .place d => k.place d
  | .pump visible now => { k with session := (k.session.pump visible now).2.2 }
  | .didOpen uri now => k.onDocument uri fun s d => (s.didOpen d now).2
  | .didChange uri text now => k.onDocument uri fun s d => (s.didChange d text now).2
  | .didSave uri text now => k.onDocument uri fun s d => (s.didSave d text now).2
  | .didClose uri text now => k.onDocument uri fun s d => (s.didClose d text now).2
  | .ask uri text q now => k.onDocument uri fun s d => (s.ask d text q now).2
  | .workspaceSymbols query now => { k with session := (k.session.workspaceSymbols query now).2 }
  | .shown uri => { k with session := (k.session.shown uri).2 }
  | .takeCapabilitiesChanged => { k with session := k.session.takeCapabilitiesChanged.2 }
  | .shutdown now => { k with session := k.session.shutdown now }
  | .kill now => { k with session := k.session.kill now }

def run (k : Desk) (actions : List DeskAction) : Desk :=
  actions.foldl step k

/-- A mirror of the server has what the host believes it has. Before the handshake is done no
document is open; once the session leaves `running` it says nothing more of any. -/
structure Agrees (name : String) (k : Desk) : Prop where
  named : k.session.name = name
  stage : Lifecycle.Stage k.session.sent k.session.client
  keyed : ∀ uri d, k.documents.get? uri = some d → d.uri = uri
  early : k.session.state.rank < ClientState.running.rank →
    ∀ uri d, k.documents.get? uri = some d → d.server ≠ some name
  mirror : ∃ m, k.session.mirror? = some m ∧
    (k.session.state = .running → ∀ uri d, k.documents.get? uri = some d → m.Fits name d)

variable {name : String} {k : Desk}

theorem running_or_early {s : ClientState} (h : s.rank ≤ ClientState.running.rank) :
    s = .running ∨ s.rank < ClientState.running.rank := by
  cases s <;> simp [ClientState.rank] at h ⊢

theorem Agrees.carries (h : Agrees name k) {s : Session} (hc : k.session.Carries s) :
    Agrees name { k with session := s } where
  named := hc.name.trans h.named
  stage := hc.stage h.stage
  keyed := h.keyed
  early hr := h.early (Nat.lt_of_le_of_lt (hc.rank h.stage) hr)
  mirror := by
    obtain ⟨m, hm, hf⟩ := h.mirror
    obtain ⟨ms, hms, hq⟩ := hc.said
    rw [Session.mirror?] at hm
    refine ⟨m, ?_, fun hr uri d hd => ?_⟩
    · rw [Session.mirror?, hms, Mirror.replay?_append, hm, Option.bind_some,
        Mirror.replay?_quiet hq]
    · have hle : k.session.state.rank ≤ ClientState.running.rank := by
        rw [← show s.state = .running from hr]; exact hc.rank h.stage
      rcases running_or_early hle with hr' | hr'
      · exact hf hr' uri d hd
      · exact fun hs => absurd hs (h.early hr' uri d hd)

theorem Agrees.keeps (h : Agrees name k) {uri : String} {d : Document}
    (hd : k.documents.get? uri = some d) {s : Session} {d' : Document}
    (hk : k.session.Keeps d s d') : Agrees name ⟨s, k.documents.put uri d'⟩ where
  named := hk.name.trans h.named
  stage := hk.stage h.stage
  keyed other e he := by
    by_cases hu : other = uri
    · rw [hu, Keyed.get?_put_self] at he
      cases he
      rw [hk.uri, h.keyed uri d hd, hu]
    · rw [Keyed.get?_put_of_ne _ _ hu] at he
      exact h.keyed other e he
  early hr other e he := by
    have hr' : k.session.state.rank < ClientState.running.rank := by rw [← hk.state]; exact hr
    by_cases hu : other = uri
    · rw [hu, Keyed.get?_put_self] at he
      cases he
      have hne : k.session.state ≠ .running := fun hx => by rw [hx] at hr'; omega
      rw [← h.named]
      intro hs
      exact h.early hr' uri d hd (by rw [← h.named]; exact hk.early hne hs)
    · rw [Keyed.get?_put_of_ne _ _ hu] at he
      exact h.early hr' other e he
  mirror := by
    obtain ⟨m, hm, hf⟩ := h.mirror
    obtain ⟨m', hm', hf', ho⟩ := hk.fits m hm fun hr => by
      rw [h.named]; exact hf hr uri d hd
    refine ⟨m', hm', fun hr other e he => ?_⟩
    have hr' : k.session.state = .running := by rw [← hk.state]; exact hr
    by_cases hu : other = uri
    · rw [hu, Keyed.get?_put_self] at he
      cases he
      rw [← h.named]
      exact hf' hr'
    · rw [Keyed.get?_put_of_ne _ _ hu] at he
      intro hs
      have heu : e.uri ≠ d.uri := by rw [h.keyed other e he, h.keyed uri d hd]; exact hu
      rw [ho e.uri heu]
      exact hf hr' other e he hs

theorem Agrees.onDocument (h : Agrees name k) (uri : String)
    {op : Session → Document → Document × Session}
    (hop : ∀ (s : Session) (d : Document), s.Keeps d (op s d).2 (op s d).1) :
    Agrees name (k.onDocument uri op) := by
  unfold Desk.onDocument
  split
  · exact h
  · rename_i d hd
    exact h.keeps hd (hop k.session d)

theorem Agrees.place (h : Agrees name k) (d : Document) : Agrees name (k.place d) := by
  unfold Desk.place
  split
  · exact h
  rename_i hn
  obtain ⟨hs, -⟩ := not_or.1 hn
  have hs' : d.server ≠ some name := by rw [← h.named]; exact hs
  have hget : ∀ {other e}, (k.documents.put d.uri d).get? other = some e →
      e = d ∧ other = d.uri ∨ k.documents.get? other = some e := by
    intro other e he
    by_cases hu : other = d.uri
    · rw [hu, Keyed.get?_put_self] at he
      exact .inl ⟨(Option.some.inj he).symm, hu⟩
    · rw [Keyed.get?_put_of_ne _ _ hu] at he
      exact .inr he
  refine ⟨h.named, h.stage, fun other e he => ?_, fun hr other e he => ?_, ?_⟩
  · rcases hget he with ⟨rfl, rfl⟩ | he
    · rfl
    · exact h.keyed other e he
  · rcases hget he with ⟨rfl, rfl⟩ | he
    · exact hs'
    · exact h.early hr other e he
  · obtain ⟨m, hm, hf⟩ := h.mirror
    refine ⟨m, hm, fun hr other e he => ?_⟩
    rcases hget he with ⟨rfl, rfl⟩ | he
    · exact fun hx => absurd hx hs'
    · exact hf hr other e he

theorem agrees_start (name : String) (connection : Connection) (options : ClientOptions)
    (completion : CompletionSettings) (processId now : Nat) :
    Agrees name (start name connection options completion processId now) := by
  let s : Session :=
    { name, connection, client := .new options, schedule := .stopped .standard,
      diagnostics := .empty, cache := none, completion, lastLog := none,
      capabilitiesChanged := false, tornDown := false, sent := [] }
  have hs : Agrees name ⟨s, []⟩ :=
    ⟨rfl, Lifecycle.stage_new options, fun _ _ h => (by cases h), fun _ _ _ h => (by cases h),
      [], rfl, fun h => (by cases h)⟩
  have hq : (Client.new options : Client RequestContext).QueuesQuiet
      ((Client.new options).connect processId).2 := by
    rw [Client.connect_of_uninitialized _ _ rfl]
    exact .of_one (.request 1 Method.start _)
      (show Method.start ∉ Mirror.documentRequests by decide) rfl
  have hc : s.Carries { s with client := ((Client.new options).connect processId).2 } :=
    .of_moves (fun h => Lifecycle.stage_connect h processId) hq
  exact hs.carries (hc.trans (Session.carries_flush _ now))

theorem agrees_step (h : Agrees name k) (action : DeskAction) : Agrees name (k.step action) := by
  cases action with
  | between connection => exact h.carries (k.session.carries_connection connection)
  | place d => exact h.place d
  | pump visible now => exact h.carries (k.session.carries_pump visible now)
  | didOpen uri now => exact h.onDocument uri fun s d => (s.keeps_didOpen d now).1
  | didChange uri text now => exact h.onDocument uri fun s d => (s.keeps_didChange d text now).1
  | didSave uri text now => exact h.onDocument uri fun s d => s.keeps_didSave d text now
  | didClose uri text now => exact h.onDocument uri fun s d => s.keeps_didClose d text now
  | ask uri text q now => exact h.onDocument uri fun s d => s.keeps_ask d text q now
  | workspaceSymbols query now => exact h.carries (k.session.carries_workspaceSymbols query now)
  | shown uri => exact h.carries (k.session.carries_shown uri)
  | takeCapabilitiesChanged => exact h.carries (.of_eq rfl rfl rfl)
  | shutdown now => exact h.carries (k.session.carries_shutdown now)
  | kill now => exact h.carries (k.session.carries_kill now)

theorem agrees_run (actions : List DeskAction) :
    ∀ {k : Desk}, Agrees name k → Agrees name (k.run actions) := by
  induction actions with
  | nil => exact fun h => h
  | cons action actions ih => exact fun h => ih (agrees_step h action)

/-- **The server's copies agree.** Whatever is done with a session and whatever comes in between,
a server that replays the messages queued finds each of them in place: every change resolves and
goes one version on, and none that is about a document finds it not open. While the session runs
its copy of each document that is open with it has the version and the text of the document. -/
theorem run_agrees (name : String) (connection : Connection) (options : ClientOptions)
    (completion : CompletionSettings) (processId now : Nat) (actions : List DeskAction) :
    let k := (start name connection options completion processId now).run actions
    ∃ m, Mirror.replay? [] k.session.log = some m ∧
      (k.session.state = .running → ∀ uri d, k.documents.get? uri = some d →
        d.server = some name → m.get? uri = some (d.version, d.text)) := by
  intro k
  have h : Agrees name k := agrees_run actions (agrees_start ..)
  obtain ⟨m, hm, hf⟩ := h.mirror
  refine ⟨m, hm, fun hr uri d hd hs => ?_⟩
  have := hf hr uri d hd hs
  rwa [h.keyed uri d hd] at this

end Desk

end LanguageClient
