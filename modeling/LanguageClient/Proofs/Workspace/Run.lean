import LanguageClient.Proofs.Keyed
import LanguageClient.Proofs.Session.Sound
import LanguageClient.Workspace.Shutdown

/-!
# Runs of a workspace

A host starts with sessions and no documents (`Workspace.ofSessions`) and
calls the workspace as it likes; between its calls, and within the one that
waits for all servers to go, the connections change as they like. Everything
that is said of a workspace between two calls is said of `Workspace.run`.
-/
namespace LanguageClient

inductive WorkspaceAction where
  | between (change : ConnectionChange)
  | openDocument (uri : String) (path : Option String) (languageId text : String) (now : Nat)
  | changeDocument (uri text : String) (now : Nat)
  | saveDocument (uri text : String) (now : Nat)
  | closeDocument (uri text : String) (now : Nat)
  | documentShown (uri : String)
  | ask (uri text : String) (q : DocumentQuery) (now : Nat)
  | workspaceSymbols (languageId query : String) (now : Nat)
  | pump (visible : String → Bool) (now : Nat)
  | pumpDue (time : Nat) (visible : String → Bool) (now : Nat)
  | shutdownServer (name : String) (now : Nat)
  /-- Shuts all servers down, waits for some rounds and ends what is left. -/
  | shutdownAll (now : Nat) (rounds : List ShutdownRound) (last : Nat)

namespace Workspace

def step (w : Workspace) : WorkspaceAction → Workspace
  | .between change => w.between change
  | .openDocument uri path languageId text now =>
    (w.openDocument (.new uri path languageId text) now).2.2
  | .changeDocument uri text now => (w.changeDocument uri text now).2
  | .saveDocument uri text now => (w.saveDocument uri text now).2
  | .closeDocument uri text now => (w.closeDocument uri text now).2
  | .documentShown uri => (w.documentShown uri).2
  | .ask uri text q now => (w.ask uri text q now).2.2
  | .workspaceSymbols languageId query now => (w.workspaceSymbols languageId query now).2.2
  | .pump visible now => (w.pump visible now).2.2
  | .pumpDue time visible now => (w.pumpDue time visible now).2.2
  | .shutdownServer name now => (w.shutdownServer name now).2
  | .shutdownAll now rounds last => (w.shutdownWithin now rounds last).2

def run (w : Workspace) (actions : List WorkspaceAction) : Workspace :=
  actions.foldl step w

theorem run_append (w : Workspace) (actions more : List WorkspaceAction) :
    w.run (actions ++ more) = (w.run actions).run more :=
  List.foldl_append

variable (w : Workspace)

/-! ## A server that answers -/

/-- A session whose server has not said anything. -/
def unanswered : Session :=
  .start "srv" (.opened .reject) ⟨["python"], none, none, .null⟩ .standard 1 0

theorem unanswered_reachable : ∀ s ∈ [unanswered], s.IsReachable := by
  intro s hs
  rw [List.mem_singleton.1 hs]
  exact ⟨_, _, _, _, _, _, [], rfl⟩

/-- Its server answers the handshake. -/
def greets : WorkspaceAction :=
  .between ⟨"srv", fun c => { c with inbound := [.frame ⟨[], [], Desk.greeting⟩] }⟩

/-! ## What the operations leave -/

theorem serverFor?_of_open {d : Document} {name : String} (h : d.server = some name) :
    w.serverFor? d = some name := by
  simp [serverFor?, h]

theorem serverFor?_of_not_open {d : Document} (h : d.server = none) :
    w.serverFor? d = w.route? d.languageId := by
  simp [serverFor?, h]

theorem withOpenDocument_eq {uri name : String} {d : Document} {s : Session}
    (hd : w.documents.get? uri = some d) (hn : d.server = some name)
    (hs : w.sessions.get? name = some s)
    (act : Session → Document → Except ClientError Bool × Document × Session) :
    w.withOpenDocument uri act =
      ((report name (act s d).1).1, w.store name (act s d).2.2 (act s d).2.1) := by
  simp only [withOpenDocument, hd, hn, hs]

theorem withOpenDocument_cases (uri : String)
    (act : Session → Document → Except ClientError Bool × Document × Session) :
    w.withOpenDocument uri act = ([], w) ∨
    ∃ d n s, w.documents.get? uri = some d ∧ d.server = some n ∧ w.sessions.get? n = some s ∧
      w.withOpenDocument uri act =
        ((report n (act s d).1).1, w.store n (act s d).2.2 (act s d).2.1) := by
  unfold withOpenDocument
  split
  · exact .inl rfl
  rename_i d hd
  split
  · exact .inl rfl
  rename_i n hn
  split
  · exact .inl rfl
  · rename_i s hs
    exact .inr ⟨d, n, s, hd, hn, hs, rfl⟩

theorem ask_cases (uri text : String) (q : DocumentQuery) (now : Nat) :
    ((w.ask uri text q now).2.2 = w) ∨
    ∃ d n s, w.documents.get? uri = some d ∧ w.serverFor? d = some n ∧
      w.sessions.get? n = some s ∧
      (w.ask uri text q now).1 = (report n (s.ask d text q now).1).2 ∧
      (w.ask uri text q now).2.2 =
        w.store n (s.ask d text q now).2.2 (s.ask d text q now).2.1 := by
  unfold ask
  split
  · exact .inl rfl
  rename_i d hd
  split
  · exact .inl rfl
  rename_i n hn
  split
  · exact .inl rfl
  · rename_i s hs
    exact .inr ⟨d, n, s, hd, hn, hs, rfl, rfl⟩

/-- A session behind a pump of those that are picked. -/
def pumped (picked : Session → Bool) (visible : String → Bool) (now : Nat) (s : Session) :
    Session :=
  if picked s then (s.pump visible now).2.2 else s

/-- What the host is told of by a pump of those that are picked. -/
def pumpedCalls (picked : Session → Bool) (visible : String → Bool) (now : Nat) (s : Session) :
    List HostCall :=
  if picked s then (s.pump visible now).2.1 else []

/-- Sessions are pumped each on its own. -/
theorem pumpSessions_eq (picked : Session → Bool) (visible : String → Bool) (now : Nat)
    (sessions : Keyed Session) :
    (pumpSessions picked visible now sessions).2 =
      (sessions.flatMap fun (_, s) => pumpedCalls picked visible now s,
        sessions.map fun (name, s) => (name, pumped picked visible now s)) := by
  induction sessions with
  | nil => rfl
  | cons entry rest ih =>
    obtain ⟨name, s⟩ := entry
    obtain ⟨hcalls, hsessions⟩ := Prod.mk.inj ih
    simp only [pumpSessions, hcalls, hsessions, List.map_cons, List.flatMap_cons, pumped,
      pumpedCalls]
    split <;> rfl

theorem pumpSessions_sessions (picked : Session → Bool) (visible : String → Bool) (now : Nat)
    (sessions : Keyed Session) :
    (pumpSessions picked visible now sessions).2.2 =
      sessions.map fun (name, s) => (name, pumped picked visible now s) :=
  congrArg Prod.snd (pumpSessions_eq picked visible now sessions)

theorem shownIn_eq (uri : String) (sessions : Keyed Session) :
    shownIn uri sessions = (sessions.flatMap fun (_, s) => (s.shown uri).1,
      sessions.map fun (name, s) => (name, (s.shown uri).2)) := by
  induction sessions with
  | nil => rfl
  | cons entry rest ih =>
    obtain ⟨name, s⟩ := entry
    simp only [shownIn, ih, List.map_cons, List.flatMap_cons]

theorem shownIn_sessions (uri : String) (sessions : Keyed Session) :
    (shownIn uri sessions).2 = sessions.map fun (name, s) => (name, (s.shown uri).2) :=
  congrArg Prod.snd (shownIn_eq uri sessions)

/-! ## Detaching -/

/-- A document that is no longer open if it was open with a server. -/
def detached (server : String) (d : Document) : Document :=
  if d.server = some server then { d with server := none } else d

theorem get?_detach {docs : DocumentStore} {server uri : String} {d' : Document}
    (h : (docs.detach server).get? uri = some d') :
    ∃ d, docs.get? uri = some d ∧
      ((d' = d ∧ d.server ≠ some server) ∨
        (d' = { d with server := none } ∧ d.server = some server)) := by
  obtain ⟨d, hd, rfl⟩ := Option.map_eq_some_iff.1
    ((Keyed.get?_map (fun _ => detached server) docs uri).symm.trans h)
  refine ⟨d, hd, ?_⟩
  by_cases hs : d.server = some server
  · exact .inr ⟨if_pos hs, hs⟩
  · exact .inl ⟨if_neg hs, hs⟩

/-- A workspace that forgets sessions detaches their documents and no others. -/
theorem get?_forget {w : Workspace} {gone stay : Keyed Session} {uri : String} {d' : Document}
    (h : (w.forget gone stay).2.documents.get? uri = some d') :
    ∃ d, w.documents.get? uri = some d ∧
      ((d' = d ∧ ∀ n ∈ gone.names, d.server ≠ some n) ∨
        (d' = { d with server := none } ∧ ∃ n ∈ gone.names, d.server = some n)) := by
  simp only [forget] at h
  generalize w.documents = docs at h ⊢
  induction gone generalizing docs with
  | nil => exact ⟨d', h, .inl ⟨rfl, by simp⟩⟩
  | cons entry rest ih =>
    obtain ⟨n, s⟩ := entry
    obtain ⟨d₁, hd₁, hrest⟩ := ih _ h
    obtain ⟨d, hd, ⟨rfl, hn⟩ | ⟨rfl, hn⟩⟩ := get?_detach hd₁
    · refine ⟨d₁, hd, hrest.imp (fun ⟨he, hr⟩ => ⟨he, ?_⟩) fun ⟨he, m, hm, hs⟩ => ⟨he, m, ?_, hs⟩⟩
      · simp only [Keyed.names_cons, List.mem_cons]
        rintro m (rfl | hm)
        · exact hn
        · exact hr m hm
      · exact List.mem_cons_of_mem _ hm
    · refine ⟨d, hd, .inr ⟨?_, n, List.mem_cons_self, hn⟩⟩
      rcases hrest with ⟨he, -⟩ | ⟨he, -⟩ <;> exact he

/-- The workspace behind the pumps of its sessions, without those that are torn down. -/
def tended (picked : Session → Bool) (visible : String → Bool) (now : Nat) : Workspace :=
  ({ w with sessions := (pumpSessions picked visible now w.sessions).2.2 } : Workspace).reap.2

theorem names_pumped (picked : Session → Bool) (visible : String → Bool) (now : Nat)
    (sessions : Keyed Session) :
    (pumpSessions picked visible now sessions).2.2.names = sessions.names := by
  rw [pumpSessions_sessions]
  exact Keyed.names_map (fun _ => pumped picked visible now) sessions

variable {picked : Session → Bool} {visible : String → Bool} {now : Nat}

theorem get?_pumped (sessions : Keyed Session) (name : String) :
    (pumpSessions picked visible now sessions).2.2.get? name =
      (sessions.get? name).map (pumped picked visible now) := by
  rw [pumpSessions_sessions]
  exact Keyed.get?_map (fun _ => pumped picked visible now) sessions name

theorem get?_tended {w : Workspace} (hn : w.sessions.names.Nodup) {name : String} {t : Session} :
    (w.tended picked visible now).sessions.get? name = some t ↔
      ∃ s, w.sessions.get? name = some s ∧ pumped picked visible now s = t ∧
        t.tornDown = false := by
  have hn' := (names_pumped picked visible now w.sessions).symm ▸ hn
  have h := Keyed.get?_filter hn' (fun entry => !entry.2.tornDown) name
  rw [get?_pumped] at h
  refine (congrArg (· = some t) h).to_iff.trans ?_
  rw [Option.filter_eq_some_iff, Option.map_eq_some_iff]
  constructor
  · rintro ⟨⟨s, hs, he⟩, ht⟩
    exact ⟨s, hs, he, by simpa using ht⟩
  · rintro ⟨s, hs, he, ht⟩
    exact ⟨⟨s, hs, he⟩, by simp [ht]⟩

/-- The documents of the sessions that are torn down are detached, and no others. -/
theorem get?_tended_documents {w : Workspace} (hn : w.sessions.names.Nodup) {uri : String}
    {d' : Document} (h : (w.tended picked visible now).documents.get? uri = some d') :
    ∃ d, w.documents.get? uri = some d ∧
      ((d' = d ∧ ∀ n s, d.server = some n → w.sessions.get? n = some s →
          (pumped picked visible now s).tornDown = false) ∨
        (d' = { d with server := none } ∧
          ∃ n s, d.server = some n ∧ w.sessions.get? n = some s ∧
            (pumped picked visible now s).tornDown = true)) := by
  have hn' := (names_pumped picked visible now w.sessions).symm ▸ hn
  obtain ⟨d, hd, hcases⟩ := get?_forget h
  have hgone : ∀ n, n ∈ Keyed.names ((pumpSessions picked visible now w.sessions).2.2.filter
      fun (_, s) => s.tornDown) ↔ ∃ s, w.sessions.get? n = some s ∧
        (pumped picked visible now s).tornDown = true := by
    intro n
    rw [← not_iff_not, ← Keyed.get?_eq_none_iff,
      Keyed.get?_filter hn' (fun entry => entry.2.tornDown) n, get?_pumped]
    cases w.sessions.get? n <;> simp
  rcases hcases with ⟨he, hs⟩ | ⟨he, n, hm, hs⟩
  · refine ⟨d, hd, .inl ⟨he, fun n s hserver hx => ?_⟩⟩
    by_contra ht
    exact hs n ((hgone n).2 ⟨s, hx, by simpa using ht⟩) hserver
  · obtain ⟨s, hx, ht⟩ := (hgone n).1 hm
    exact ⟨d, hd, .inr ⟨he, n, s, hs, hx, ht⟩⟩

theorem names_detach (docs : DocumentStore) (server : String) :
    Keyed.names (docs.detach server) = Keyed.names docs :=
  Keyed.names_map (fun _ => detached server) docs

theorem names_forget (w : Workspace) (gone stay : Keyed Session) :
    Keyed.names (w.forget gone stay).2.documents = Keyed.names w.documents := by
  simp only [forget]
  generalize w.documents = docs
  induction gone generalizing docs with
  | nil => rfl
  | cons entry rest ih => exact (ih _).trans (names_detach docs entry.1)

/-! ## Shutting down -/

/-- No session is left by a shutdown, whatever the servers do and however long it waits. -/
theorem sessions_shutdownWithin (now : Nat) (rounds : List ShutdownRound) (last : Nat) :
    (w.shutdownWithin now rounds last).2.sessions = [] :=
  rfl

/-! ## Offering -/

theorem openAll_steady (name : String) (wanted : Document → Bool) (now : Nat)
    (docs : DocumentStore) :
    ∀ s : Session, s.Steady (openAll name wanted now s docs).2.2 := by
  induction docs with
  | nil =>
    intro s
    exact .refl s
  | cons entry rest ih =>
    intro s
    unfold openAll
    split
    · exact (s.steady_didOpen entry.2 now).1.trans (ih _)
    · exact ih s

/-- Of the wanted documents those are opened that the server handles. -/
theorem openAll_documents (name : String) (wanted : Document → Bool) (now : Nat)
    (docs : DocumentStore) :
    ∀ s : Session, (openAll name wanted now s docs).2.1 = docs.map fun (uri, d) =>
      (uri, if wanted d && (!d.isOpen && s.handles d) then { d with server := some s.name }
        else d) := by
  induction docs with
  | nil =>
    intro s
    rfl
  | cons entry rest ih =>
    intro s
    obtain ⟨uri, d⟩ := entry
    have h := (s.steady_didOpen d now).1
    unfold openAll
    split <;> rename_i hw
    · simp only [ih, h.handles, h.name, s.didOpen_document d now, List.map_cons, hw,
        Bool.true_and]
    · simp only [ih, List.map_cons, hw, Bool.false_and, Bool.false_eq_true, if_false]

theorem get?_openAll {name uri : String} {wanted : Document → Bool} {now : Nat} {s : Session}
    {docs : DocumentStore} {d' : Document}
    (h : (openAll name wanted now s docs).2.1.get? uri = some d') :
    ∃ d, docs.get? uri = some d ∧
      ((d' = { d with server := some s.name } ∧ wanted d = true ∧ s.handles d = true) ∨
        (d' = d ∧ ¬(wanted d = true ∧ d.server = none ∧ s.handles d = true))) := by
  rw [openAll_documents] at h
  obtain ⟨d, hd, rfl⟩ := Option.map_eq_some_iff.1 ((Keyed.get?_map (fun _ d =>
    if wanted d && (!d.isOpen && s.handles d) then { d with server := some s.name } else d)
    docs uri).symm.trans h)
  refine ⟨d, hd, ?_⟩
  have hopen : d.isOpen = false ↔ d.server = none := by simp [Document.isOpen]
  by_cases hx : wanted d = true ∧ d.server = none ∧ s.handles d = true
  · exact .inl ⟨if_pos (by simp [hx, hopen.2 hx.2.1]), hx.1, hx.2.2⟩
  · exact .inr ⟨if_neg (by simpa [hopen] using hx), hx⟩

theorem names_openAll (name : String) (wanted : Document → Bool) (now : Nat) (s : Session)
    (docs : DocumentStore) :
    Keyed.names (openAll name wanted now s docs).2.1 = Keyed.names docs := by
  rw [openAll_documents]
  exact Keyed.names_map (fun _ d =>
    if wanted d && (!d.isOpen && s.handles d) then { d with server := some s.name } else d) docs

/-- Whether a document waits for the server it is routed to. -/
def waits (w : Workspace) (name : String) (d : Document) : Bool :=
  !d.isOpen && w.route? d.languageId = some name

theorem waits_iff {name : String} {d : Document} :
    w.waits name d = true ↔ d.server = none ∧ w.route? d.languageId = some name := by
  simp [waits, Document.isOpen]

/-- An offer is made if there is word of it; then the documents that wait are opened that the
server handles. -/
theorem offer_cases (name : String) (now : Nat) :
    ((w.offer name now).2 = w ∧
      ∀ s, w.sessions.get? name = some s → s.capabilitiesChanged = false) ∨
    ∃ s calls docs s', w.sessions.get? name = some s ∧ s.capabilitiesChanged = true ∧
      openAll name (w.waits name) now s.takeCapabilitiesChanged.2 w.documents =
        (calls, docs, s') ∧
      (w.offer name now).2 =
        { w with documents := docs, sessions := w.sessions.put name s' } := by
  unfold offer
  split
  · rename_i hn
    exact .inl ⟨rfl, fun s hs => by rw [hn] at hs; cases hs⟩
  rename_i s hs
  split
  · rename_i hc
    refine .inl ⟨rfl, fun t ht => ?_⟩
    rw [hs] at ht
    cases ht
    exact congrArg Prod.fst hc
  · rename_i s₁ hc
    have hs₁ : s₁ = s.takeCapabilitiesChanged.2 := (congrArg Prod.snd hc).symm
    subst hs₁
    exact .inr ⟨s, _, _, _, hs, congrArg Prod.fst hc, rfl, rfl⟩

end Workspace

end LanguageClient
