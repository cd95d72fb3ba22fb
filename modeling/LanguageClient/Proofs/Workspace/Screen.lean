import LanguageClient.Proofs.Diagnostic.Servers
import LanguageClient.Proofs.Session.Screen
import LanguageClient.Proofs.Workspace.Run

/-!
# What a workspace puts on screen

All servers of a workspace tell one host. `WorkspaceTrace` keeps what the host
was told and, for each server, what happened to the diagnostics of documents
while the server was there. Most operations have nothing to do with
diagnostics (`Silent`); the sessions take events in, each on its own (`each`),
and those that are torn down are removed (`displays_forget`).

* `displays_run`: every run keeps the stores and the screen in step.
* `run_removed`: what a server leaves on screen when it is removed.
-/
namespace LanguageClient

open HostCall DiagnosticStore

namespace Workspace

/-- The diagnostics of some sessions. -/
def storesOf (sessions : Keyed Session) : Keyed DiagnosticStore :=
  sessions.map fun (name, s) => (name, s.diagnostics)

variable {w : Workspace} {sessions : Keyed Session} {name : String} {s s' : Session}

theorem names_storesOf (sessions : Keyed Session) :
    (storesOf sessions).names = sessions.names :=
  Keyed.names_map (fun _ (s : Session) => s.diagnostics) sessions

theorem get?_storesOf (sessions : Keyed Session) (name : String) :
    (storesOf sessions).get? name = (sessions.get? name).map Session.diagnostics :=
  Keyed.get?_map (fun _ (s : Session) => s.diagnostics) sessions name

theorem storesOf_put (hs : sessions.get? name = some s) (hd : s'.diagnostics = s.diagnostics) :
    storesOf (sessions.put name s') = storesOf sessions := by
  induction sessions with
  | nil => cases hs
  | cons entry rest ih =>
    obtain ⟨k, t⟩ := entry
    rw [Keyed.get?_cons] at hs
    rw [Keyed.put]
    split at hs <;> rename_i hk
    · obtain rfl := Option.some.inj hs
      rw [if_pos hk, ← hk]
      simp [storesOf, hd]
    · rw [if_neg hk]
      exact congrArg ((k, t.diagnostics) :: ·) (ih hs)

theorem storesOf_map {f : String → Session → Session}
    (hf : ∀ name s, (f name s).diagnostics = s.diagnostics) (sessions : Keyed Session) :
    storesOf (sessions.map fun (name, s) => (name, f name s)) = storesOf sessions := by
  simp [storesOf, hf]

/-! ## Operations that have nothing to do with diagnostics -/

/-- An operation that leaves the diagnostics of all sessions, and tells the host nothing of any. -/
structure Silent (w : Workspace) (r : List HostCall × Workspace) : Prop where
  stores : storesOf r.2.sessions = storesOf w.sessions
  calls : ∀ uri, linesOf uri r.1 = []

theorem linesOf_report {α : Type} (name : String) (r : Except ClientError α) (uri : String) :
    linesOf uri (report name r).1 = [] := by
  cases r <;> rfl

theorem Silent.store {calls : List HostCall} (hs : w.sessions.get? name = some s)
    (hd : s'.diagnostics = s.diagnostics) (hc : ∀ uri, linesOf uri calls = []) (d : Document) :
    Silent w (calls, w.store name s' d) :=
  ⟨storesOf_put hs hd, hc⟩

theorem silent_withOpenDocument (w : Workspace) (uri : String)
    {act : Session → Document → Except ClientError Bool × Document × Session}
    (hact : ∀ s d, (act s d).2.2.diagnostics = s.diagnostics) :
    Silent w (w.withOpenDocument uri act) := by
  rcases w.withOpenDocument_cases uri act with he | ⟨d, n, s, -, -, hs, he⟩ <;> rw [he]
  · exact ⟨rfl, fun _ => rfl⟩
  · exact .store hs (hact s d) (linesOf_report n _) _

theorem silent_openDocument (w : Workspace) (d : Document) (now : Nat) :
    Silent w (w.openDocument d now).2 := by
  unfold openDocument
  simp only
  split
  · exact ⟨rfl, fun _ => rfl⟩
  split
  · exact ⟨rfl, fun _ => rfl⟩
  · rename_i s hs
    exact ⟨storesOf_put hs (s.unheard_didOpen (P := fun _ => False) _ now).diagnostics,
      linesOf_report _ _⟩

theorem silent_ask (w : Workspace) (uri text : String) (q : DocumentQuery) (now : Nat) :
    Silent w (w.ask uri text q now).2 := by
  have houtcome : ∀ (outcome : Option RequestOutcome) context other,
      linesOf other (outcome.toList.flatMap (outcomeCalls q.method context)) = [] := by
    intro outcome context other
    rcases outcome with - | id | items | - <;> rfl
  unfold ask
  split
  · exact ⟨rfl, fun _ => rfl⟩
  split
  · exact ⟨rfl, fun _ => rfl⟩
  split
  · exact ⟨rfl, fun _ => rfl⟩
  · rename_i d _ _ _ _ _ s hs
    refine ⟨storesOf_put hs (s.ask_unheard d text now q).diagnostics, fun other => ?_⟩
    rw [linesOf_append, linesOf_report, houtcome, List.append_nil]

theorem silent_workspaceSymbols (w : Workspace) (languageId query : String) (now : Nat) :
    Silent w (w.workspaceSymbols languageId query now).2 := by
  unfold workspaceSymbols
  split
  · exact ⟨rfl, fun _ => rfl⟩
  split
  · exact ⟨rfl, fun _ => rfl⟩
  · rename_i s hs
    refine ⟨storesOf_put hs
      (s.unheard_workspaceSymbols (P := fun _ => False) now query).diagnostics, fun other => ?_⟩
    rw [linesOf_append, linesOf_report, List.nil_append]
    split <;> rfl

theorem silent_shutdownServer (w : Workspace) (name : String) (now : Nat) :
    Silent w ([], (w.shutdownServer name now).2) := by
  unfold shutdownServer
  split
  · exact ⟨rfl, fun _ => rfl⟩
  · rename_i s hs
    exact ⟨storesOf_put hs (s.unheard_shutdown (P := fun _ => False) now).diagnostics,
      fun _ => rfl⟩

theorem silent_shutdownAll (w : Workspace) (now : Nat) : Silent w ([], w.shutdownAll now) :=
  ⟨storesOf_map (fun _ s => (s.unheard_shutdown (P := fun _ => False) now).diagnostics) _,
    fun _ => rfl⟩

theorem silent_between (w : Workspace) (c : ConnectionChange) : Silent w ([], w.between c) :=
  ⟨storesOf_map (f := fun key s =>
      if key = c.name then { s with connection := c.change s.connection } else s)
    (fun _ _ => by split <;> rfl) _, fun _ => rfl⟩

theorem openAll_silent (name : String) (wanted : Document → Bool) (now : Nat)
    (docs : DocumentStore) : ∀ s : Session,
      (openAll name wanted now s docs).2.2.diagnostics = s.diagnostics ∧
        ∀ uri, linesOf uri (openAll name wanted now s docs).1 = [] := by
  induction docs with
  | nil => exact fun s => ⟨rfl, fun _ => rfl⟩
  | cons entry rest ih =>
    intro s
    unfold openAll
    split
    · obtain ⟨hd, hc⟩ := ih (s.didOpen entry.2 now).2.2
      refine ⟨hd.trans (s.unheard_didOpen (P := fun _ => False) entry.2 now).diagnostics,
        fun uri => ?_⟩
      simp only
      rw [linesOf_append, linesOf_report, hc, List.append_nil]
    · exact ih s

theorem silent_offer (w : Workspace) (name : String) (now : Nat) :
    Silent w (w.offer name now) := by
  unfold offer
  split
  · exact ⟨rfl, fun _ => rfl⟩
  rename_i s hs
  split
  · exact ⟨rfl, fun _ => rfl⟩
  · rename_i s₁ hs₁
    obtain rfl : s.takeCapabilitiesChanged.2 = s₁ := congrArg Prod.snd hs₁
    obtain ⟨hd, hc⟩ := openAll_silent name (w.waits name) now w.documents
      s.takeCapabilitiesChanged.2
    exact ⟨storesOf_put hs hd, hc⟩

theorem silent_offerAll (now : Nat) (names : List String) :
    ∀ w : Workspace, Silent w (offerAll now names w) := by
  induction names with
  | nil => exact fun w => ⟨rfl, fun _ => rfl⟩
  | cons name names ih =>
    intro w
    have hfirst := w.silent_offer name now
    have hrest := ih (w.offer name now).2
    refine ⟨hrest.stores.trans hfirst.stores, fun uri => ?_⟩
    simp only [offerAll, linesOf_append]
    rw [hfirst.calls, hrest.calls, List.append_nil]

/-! ## Each session on its own -/

/-- Every session does something, each on its own. -/
def each (f : String → Session → List HostCall × Session) (w : Workspace) :
    List HostCall × Workspace :=
  (w.sessions.flatMap fun (name, s) => (f name s).1,
    { w with sessions := w.sessions.map fun (name, s) => (name, (f name s).2) })

/-- A session may be pumped. -/
def pumps (picked : Session → Bool) (visible : String → Bool) (now : Nat) (_ : String)
    (s : Session) : List HostCall × Session :=
  (pumpedCalls picked visible now s, pumped picked visible now s)

/-- A session may take in a part of what waits. -/
def takesIn (name : String) (visible : String → Bool) (most : Nat) (other : String)
    (s : Session) : List HostCall × Session :=
  if other = name ∧ s.tornDown = false then (Session.takeIn visible most s).2 else ([], s)

theorem documentShown_eq (w : Workspace) (uri : String) :
    w.documentShown uri = w.each fun _ s => s.shown uri := by
  rw [documentShown, shownIn_eq]
  rfl

variable {known : List String} {uri : String} {told : List HostCall}
  {events : String → List DiagnosticEvent}

/-- What happens by an operation that each session does on its own. -/
def happened (w : Workspace) (new : String → Session → List DiagnosticEvent) (name : String) :
    List DiagnosticEvent :=
  ((w.sessions.get? name).map (new name)).getD []

theorem displays_each {f : String → Session → List HostCall × Session}
    {new : String → Session → List DiagnosticEvent}
    (h : Displays known name uri (storesOf w.sessions) told events)
    (hf : ∀ name (s : Session), s.Reports (f name s).1 (f name s).2 (new name s)) :
    Displays known name uri (storesOf (w.each f).2.sessions) (told ++ (w.each f).1)
      fun name => events name ++ w.happened new name := by
  have hnames := names_storesOf w.sessions
  have hnew : ∀ entry ∈ w.sessions, w.happened new entry.1 = new entry.1 entry.2 := by
    intro entry he
    rw [happened, Keyed.get?_of_mem (hnames ▸ h.nodup) he]
    rfl
  have hstores : storesOf (w.each f).2.sessions = (storesOf w.sessions).map fun entry =>
      (entry.1, (entry.2.takeAll (w.happened new entry.1)).2) := by
    simp only [storesOf, each, List.map_map]
    refine List.map_congr_left fun entry he => ?_
    simp only [Function.comp_apply]
    rw [hnew entry he, (hf entry.1 entry.2).store]
  rw [hstores]
  refine h.takes (fun other ho => ?_) ?_
  · rw [happened, Keyed.get?_eq_none_iff.2 (hnames ▸ ho)]
    rfl
  · simp only [storesOf, each, linesOf, List.filterMap_flatMap, List.flatMap_map]
    refine List.flatMap_congr fun entry he => ?_
    rw [hnew entry he]
    exact (hf entry.1 entry.2).lines uri

/-! ## Removing sessions -/

theorem mem_uris {store : DiagnosticStore} : uri ∈ store.uris ↔ uri ∈ store.data.names :=
  List.mem_mergeSort

/-- Sessions are removed. -/
theorem displays_forget (h : Displays known name uri (storesOf w.sessions) told events)
    (gone : Session → Bool) (w' : Workspace) (stay : Keyed Session) :
    Displays known name uri (storesOf (w.sessions.filter fun (_, s) => !gone s))
      (told ++ (w'.forget (w.sessions.filter fun (_, s) => gone s) stay).1) events := by
  have hnodup : w.sessions.names.Nodup := names_storesOf w.sessions ▸ h.nodup
  have hgone : ∀ entry ∈ w.sessions,
      (w.sessions.get? entry.1).any gone = gone entry.2 := by
    intro entry he
    rw [Keyed.get?_of_mem hnodup he]
    rfl
  have hstores : storesOf (w.sessions.filter fun (_, s) => !gone s) =
      (storesOf w.sessions).filter fun entry => !(w.sessions.get? entry.1).any gone := by
    simp only [storesOf, List.filter_map]
    refine congrArg _ (List.filter_congr fun entry he => ?_)
    exact congrArg (!·) (hgone entry he).symm
  rw [hstores]
  refine h.removes (p := fun other => (w.sessions.get? other).any gone) ?_ ?_
  · intro lines hlines
    simp only [forget, linesOf, List.filterMap_flatMap, List.filterMap_map, List.mem_flatMap,
      List.mem_filterMap, Function.comp_apply, lines?] at hlines
    obtain ⟨-, -, other, -, hl⟩ := hlines
    split at hl
    · exact (Option.some.inj hl).symm
    · cases hl
  · have hmem : linesOf uri (w'.forget (w.sessions.filter fun (_, s) => gone s) stay).1 ≠ [] ↔
        ∃ entry ∈ w.sessions, gone entry.2 = true ∧ uri ∈ entry.2.diagnostics.uris := by
      simp only [forget, linesOf, List.filterMap_flatMap, List.filterMap_map, ne_eq,
        List.flatMap_eq_nil_iff, List.filterMap_eq_nil_iff, List.mem_filter, Function.comp_apply,
        lines?, not_forall, ite_eq_right_iff, reduceCtorEq, imp_false, not_not]
      constructor
      · rintro ⟨entry, ⟨he, hg⟩, other, ho, rfl⟩
        exact ⟨entry, he, hg, ho⟩
      · rintro ⟨entry, he, hg, hu⟩
        exact ⟨entry, ⟨he, hg⟩, uri, hu, rfl⟩
    rw [hmem]
    have hget : ∀ {other s}, w.sessions.get? other = some s →
        (uri ∈ s.diagnostics.uris ↔ s.diagnostics.get uri ≠ []) := by
      intro other s hs
      have hfollows := h.follows ((get?_storesOf w.sessions other).trans (by rw [hs]; rfl))
      rw [mem_uris, ← not_iff_not, ← Keyed.get?_eq_none_iff, hfollows.data, hfollows.get, not_not]
      split <;> simp_all
    constructor
    · rintro ⟨⟨other, s⟩, he, hg, hu⟩
      have hs := Keyed.get?_of_mem hnodup he
      exact ⟨other, s.diagnostics, by rw [get?_storesOf, hs]; rfl, by rw [hs]; exact hg,
        (hget hs).1 hu⟩
    · rintro ⟨other, store, hstore, hp, hne⟩
      rw [get?_storesOf] at hstore
      obtain ⟨s, hs, rfl⟩ := Option.map_eq_some_iff.1 hstore
      exact ⟨(other, s), Keyed.mem_of_get? hs, by rwa [hs] at hp, (hget hs).2 hne⟩

/-! ## A pump, and the end of all sessions -/

theorem reports_pumps (picked : Session → Bool) (visible : String → Bool) (now : Nat)
    (name : String) (s : Session) :
    s.Reports (pumps picked visible now name s).1 (pumps picked visible now name s).2
      (if picked s then s.arrivals.filterMap (publication? visible) else []) := by
  unfold pumps pumpedCalls pumped
  split
  · exact s.reports_pump visible now
  · exact .of_eq rfl (by simp)

theorem reports_takesIn (name : String) (visible : String → Bool) (most : Nat) (other : String)
    (s : Session) :
    s.Reports (takesIn name visible most other s).1 (takesIn name visible most other s).2
      (if other = name ∧ s.tornDown = false then
        (s.connection.waiting most).filterMap (publication? visible)
      else []) := by
  unfold takesIn
  split
  · exact s.reports_takeIn visible most
  · exact .of_eq rfl (by simp)

theorem Silent.displays {r : List HostCall × Workspace} (hr : Silent w r)
    (h : Displays known name uri (storesOf w.sessions) told events) :
    Displays known name uri (storesOf r.2.sessions) (told ++ r.1) events := by
  rw [hr.stores]
  exact h.keeps (hr.calls uri)

theorem displays_reap (h : Displays known name uri (storesOf w.sessions) told events) :
    Displays known name uri (storesOf w.reap.2.sessions) (told ++ w.reap.1) events :=
  displays_forget h Session.tornDown w _

/-- A pump is that of each session, the removal of those torn down, and the offers. -/
theorem pumpWhere_eq (w : Workspace) (picked : Session → Bool) (visible : String → Bool)
    (now : Nat) :
    let pumped := w.each (pumps picked visible now)
    let opened := offerAll now pumped.2.reap.2.sessions.names pumped.2.reap.2
    (w.pumpWhere picked visible now).2 = (pumped.1 ++ pumped.2.reap.1 ++ opened.1, opened.2) := by
  have he := pumpSessions_eq picked visible now w.sessions
  unfold pumpWhere
  generalize pumpSessions picked visible now w.sessions = result at he ⊢
  obtain ⟨handled, calls, sessions⟩ := result
  obtain ⟨rfl, rfl⟩ := Prod.mk.inj he
  rfl

theorem displays_pumpWhere (h : Displays known name uri (storesOf w.sessions) told events)
    (picked : Session → Bool) (visible : String → Bool) (now : Nat) :
    Displays known name uri (storesOf (w.pumpWhere picked visible now).2.2.sessions)
      (told ++ (w.pumpWhere picked visible now).2.1) fun name => events name ++
        w.happened (fun _ s => if picked s then s.arrivals.filterMap (publication? visible) else [])
          name := by
  have hpumped := displays_each h fun name s => reports_pumps picked visible now name s
  rw [pumpWhere_eq]
  generalize w.each (pumps picked visible now) = pumped at hpumped ⊢
  have hopened := silent_offerAll now pumped.2.reap.2.sessions.names pumped.2.reap.2
  simpa only [List.append_assoc] using hopened.displays (displays_reap hpumped)

theorem displays_killAll (h : Displays known name uri (storesOf w.sessions) told events)
    (now : Nat) : Displays known name uri (storesOf (w.killAll now).2.sessions)
      (told ++ (w.killAll now).1) events := by
  have hstores := storesOf_map (f := fun _ s => s.kill now) (fun _ s => (s.kill_heard now).1)
    w.sessions
  rw [← hstores] at h
  have hgone := displays_forget (w := { w with sessions := _ }) h (fun _ => true) w []
  rw [List.filter_true] at hgone
  simp only [Bool.not_true, List.filter_false] at hgone
  exact hgone

end Workspace

/-- What happens to a workspace. The host may come to show other documents between two frames that
a session takes in while the sessions are pumped. -/
inductive WorkspaceMoment where
  | act (action : WorkspaceAction)
  /-- A part of a pump: the session takes in at most as many items as given. -/
  | takeIn (name : String) (visible : String → Bool) (most : Nat)

/-- A workspace with all that its host was told, and for each server what happened to the
diagnostics of documents while the server was there. -/
structure WorkspaceTrace where
  workspace : Workspace
  told : List HostCall
  events : String → List DiagnosticEvent

namespace WorkspaceTrace

open Workspace

def start (sessions : List Session) (completion : CompletionSettings) : WorkspaceTrace :=
  ⟨ofSessions sessions completion, [], fun _ => []⟩

/-- An operation by which nothing happens to the diagnostics of documents. -/
def note (t : WorkspaceTrace) (r : List HostCall × Workspace) : WorkspaceTrace :=
  { t with workspace := r.2, told := t.told ++ r.1 }

/-- An operation by which something happens to the diagnostics of documents. -/
def hear (t : WorkspaceTrace) (r : List HostCall × Workspace)
    (new : String → Session → List DiagnosticEvent) : WorkspaceTrace :=
  ⟨r.2, t.told ++ r.1, fun name => t.events name ++ t.workspace.happened new name⟩

def pump (t : WorkspaceTrace) (picked : Session → Bool) (visible : String → Bool) (now : Nat) :
    WorkspaceTrace :=
  t.hear (t.workspace.pumpWhere picked visible now).2
    fun _ s => if picked s then s.arrivals.filterMap (publication? visible) else []

def changes (t : WorkspaceTrace) (changes : List ConnectionChange) : WorkspaceTrace :=
  changes.foldl (fun t c => t.note ([], t.workspace.between c)) t

/-- Pumps round after round until all servers are gone. -/
def awaitGone (t : WorkspaceTrace) : List ShutdownRound → WorkspaceTrace
  | [] => t
  | r :: rounds =>
    let t := (t.changes r.before).pump (fun _ => true) r.visible r.now
    if t.workspace.isAlive then t.awaitGone rounds else t

def act (t : WorkspaceTrace) : WorkspaceAction → WorkspaceTrace
  | .between change => t.note ([], t.workspace.between change)
  | .openDocument uri path languageId text now =>
    t.note (t.workspace.openDocument (.new uri path languageId text) now).2
  | .changeDocument uri text now => t.note (t.workspace.changeDocument uri text now)
  | .saveDocument uri text now => t.note (t.workspace.saveDocument uri text now)
  | .closeDocument uri text now => t.note (t.workspace.closeDocument uri text now)
  | .documentShown uri => t.hear (t.workspace.documentShown uri) fun _ _ => [.shown uri]
  | .ask uri text q now => t.note (t.workspace.ask uri text q now).2
  | .workspaceSymbols languageId query now =>
    t.note (t.workspace.workspaceSymbols languageId query now).2
  | .pump visible now => t.pump (fun _ => true) visible now
  | .pumpDue time visible now => t.pump (fun s => s.isDue time) visible now
  | .shutdownServer name now => t.note ([], (t.workspace.shutdownServer name now).2)
  | .shutdownAll now rounds last =>
    let t := (t.note ([], t.workspace.shutdownAll now)).awaitGone rounds
    t.note (t.workspace.killAll last)

def step (t : WorkspaceTrace) : WorkspaceMoment → WorkspaceTrace
  | .act action => t.act action
  | .takeIn name visible most =>
    t.hear (t.workspace.each (takesIn name visible most)) fun other s =>
      if other = name ∧ s.tornDown = false then
        (s.connection.waiting most).filterMap (publication? visible)
      else []

def run (t : WorkspaceTrace) (moments : List WorkspaceMoment) : WorkspaceTrace :=
  moments.foldl step t

variable {t : WorkspaceTrace}

theorem changes_eq (changes : List ConnectionChange) : ∀ t : WorkspaceTrace,
    t.changes changes = { t with workspace := changes.foldl between t.workspace } := by
  induction changes with
  | nil => exact fun t => rfl
  | cons c changes ih =>
    intro t
    refine (ih _).trans ?_
    simp only [note, List.append_nil, List.foldl_cons]

/-- What is noted of waiting for the servers is what the workspace does and tells its host. -/
theorem awaitGone_eq (rounds : List ShutdownRound) : ∀ t : WorkspaceTrace,
    (t.awaitGone rounds).workspace = (t.workspace.awaitGone rounds).2 ∧
      (t.awaitGone rounds).told = t.told ++ (t.workspace.awaitGone rounds).1 := by
  induction rounds with
  | nil => exact fun t => ⟨rfl, (List.append_nil _).symm⟩
  | cons r rounds ih =>
    intro t
    obtain ⟨hworkspace, htold⟩ : ((t.changes r.before).pump (fun _ => true) r.visible
          r.now).workspace = ((r.before.foldl between t.workspace).pump r.visible r.now).2.2 ∧
        ((t.changes r.before).pump (fun _ => true) r.visible r.now).told =
          t.told ++ ((r.before.foldl between t.workspace).pump r.visible r.now).2.1 := by
      rw [changes_eq]
      exact ⟨rfl, rfl⟩
    unfold awaitGone Workspace.awaitGone
    simp only
    generalize (t.changes r.before).pump (fun _ => true) r.visible r.now = t' at hworkspace htold ⊢
    rw [← hworkspace]
    cases t'.workspace.isAlive with
    | true =>
      obtain ⟨hrest, hmore⟩ := ih t'
      exact ⟨hrest, by rw [if_pos rfl, if_pos rfl, hmore, htold, List.append_assoc]⟩
    | false => exact ⟨rfl, htold⟩

/-- What is noted of a shutdown is what the workspace does and tells its host. -/
theorem act_shutdownAll (t : WorkspaceTrace) (now : Nat) (rounds : List ShutdownRound)
    (last : Nat) :
    let done := t.workspace.shutdownWithin now rounds last
    (t.act (.shutdownAll now rounds last)).workspace = done.2 ∧
      (t.act (.shutdownAll now rounds last)).told = t.told ++ done.1 := by
  obtain ⟨hworkspace, htold⟩ := awaitGone_eq rounds (t.note ([], t.workspace.shutdownAll now))
  simp only [note, List.append_nil] at hworkspace htold
  simp only [act, note, shutdownWithin, List.append_nil, hworkspace, htold, List.append_assoc,
    and_self]

/-- With pumps that nobody interrupts, what happens to the workspace is a run of it. -/
theorem workspace_run (actions : List WorkspaceAction) :
    ∀ t : WorkspaceTrace, (t.run (actions.map .act)).workspace = t.workspace.run actions := by
  induction actions with
  | nil => exact fun t => rfl
  | cons action actions ih =>
    intro t
    refine (ih _).trans (congrArg (Workspace.run · actions) ?_)
    cases action with
    | shutdownAll now rounds last => exact (t.act_shutdownAll now rounds last).1
    | _ => rfl

/-! ### The screen -/

/-- The stores and the screen are in step for a document and the server that publishes it. -/
def Shows (known : List String) (name uri : String) (t : WorkspaceTrace) : Prop :=
  Displays known name uri (storesOf t.workspace.sessions) t.told t.events

variable {known : List String} {name uri : String}

theorem Shows.note (h : t.Shows known name uri) {r : List HostCall × Workspace}
    (hr : Silent t.workspace r) : (t.note r).Shows known name uri :=
  hr.displays h

theorem Shows.pump (h : t.Shows known name uri) (picked : Session → Bool) (visible : String → Bool)
    (now : Nat) : (t.pump picked visible now).Shows known name uri :=
  displays_pumpWhere h picked visible now

theorem Shows.changes (h : t.Shows known name uri) (changes : List ConnectionChange) :
    (t.changes changes).Shows known name uri := by
  induction changes generalizing t with
  | nil => exact h
  | cons c changes ih => exact ih (h.note (silent_between _ c))

theorem Shows.awaitGone (rounds : List ShutdownRound) : ∀ {t : WorkspaceTrace},
    t.Shows known name uri → (t.awaitGone rounds).Shows known name uri := by
  induction rounds with
  | nil => exact fun h => h
  | cons r rounds ih =>
    intro t h
    have hpumped := (h.changes r.before).pump (fun _ => true) r.visible r.now
    unfold WorkspaceTrace.awaitGone
    simp only
    split
    · exact ih hpumped
    · exact hpumped

theorem shows_act (h : t.Shows known name uri) (action : WorkspaceAction) :
    (t.act action).Shows known name uri := by
  cases action with
  | between c => exact h.note (silent_between _ c)
  | openDocument uri path languageId text now => exact h.note (silent_openDocument _ _ now)
  | changeDocument uri text now =>
    exact h.note (silent_withOpenDocument _ uri fun s d =>
      (s.unheard_didChange (P := fun _ => False) d text now).diagnostics)
  | saveDocument uri text now =>
    exact h.note (silent_withOpenDocument _ uri fun s d =>
      (s.unheard_didSave (P := fun _ => False) d text now).diagnostics)
  | closeDocument uri text now =>
    have hclose := silent_withOpenDocument t.workspace uri fun s d =>
      Desk.diagnostics_didClose s d text now
    exact h.note ⟨hclose.stores, hclose.calls⟩
  | documentShown uri =>
    have hshown := displays_each h fun _ s => s.reports_shown uri
    rw [← documentShown_eq] at hshown
    exact hshown
  | ask uri text q now => exact h.note (silent_ask _ uri text q now)
  | workspaceSymbols languageId query now =>
    exact h.note (silent_workspaceSymbols _ languageId query now)
  | pump visible now => exact h.pump _ visible now
  | pumpDue time visible now => exact h.pump _ visible now
  | shutdownServer name now => exact h.note (silent_shutdownServer _ name now)
  | shutdownAll now rounds last =>
    exact displays_killAll ((h.note (silent_shutdownAll _ now)).awaitGone rounds) last

theorem shows_step (h : t.Shows known name uri) (moment : WorkspaceMoment) :
    (t.step moment).Shows known name uri := by
  cases moment with
  | act action => exact shows_act h action
  | takeIn other visible most => exact displays_each h (reports_takesIn other visible most)

theorem shows_run (moments : List WorkspaceMoment) : ∀ {t : WorkspaceTrace},
    t.Shows known name uri → (t.run moments).Shows known name uri := by
  induction moments with
  | nil => exact fun h => h
  | cons moment moments ih => exact fun h => ih (shows_step h moment)

theorem stores_insertAll (sessions : List Session) (h : ∀ s ∈ sessions, s.diagnostics = .empty) :
    ∀ {all : Keyed Session}, all.Sorted →
      (∀ {n s}, all.get? n = some s → s.diagnostics = .empty) →
      let final := sessions.foldl (fun all s => Keyed.insert s.name s all) all
      final.Sorted ∧ (∀ {n s}, final.get? n = some s → s.diagnostics = .empty) ∧
        ∀ {n}, n ∈ final.names → n ∈ all.names ∨ n ∈ sessions.map Session.name := by
  induction sessions with
  | nil => exact fun hsorted hempty => ⟨hsorted, hempty, .inl⟩
  | cons s sessions ih =>
    intro all hsorted hempty
    obtain ⟨hsorted', hempty', hnames⟩ := ih (fun x hx => h x (List.mem_cons_of_mem _ hx))
      (hsorted.insert s.name s) fun {n t} ht => by
        rw [Keyed.get?_insert] at ht
        split at ht
        · rw [← Option.some.inj ht]
          exact h s List.mem_cons_self
        · exact hempty ht
    refine ⟨hsorted', hempty', fun {n} hn => ?_⟩
    rw [List.map_cons, List.mem_cons]
    rcases hnames hn with hn | hn
    · rcases Keyed.mem_names_insert.1 hn with hn | hn
      · exact .inr (.inl hn)
      · exact .inl hn
    · exact .inr (.inr hn)

theorem shows_start {sessions : List Session} (h : ∀ s ∈ sessions, s.diagnostics = .empty)
    (completion : CompletionSettings) :
    (start sessions completion).Shows (sessions.map Session.name) name uri := by
  obtain ⟨hsorted, hempty, hnames⟩ := @stores_insertAll sessions h [] List.Pairwise.nil
    fun hs => by cases hs
  refine ⟨(names_storesOf _).symm ▸ hsorted.nodup, fun {n} hn => ⟨?_, rfl⟩,
    fun {n store} hstore => ?_, fun _ _ => rfl, fun _ _ => iff_of_true rfl (.inr rfl)⟩
  · rw [names_storesOf]
    exact fun hx => hn ((hnames hx).resolve_left (by simp))
  · rw [get?_storesOf] at hstore
    obtain ⟨s, hs, rfl⟩ := Option.map_eq_some_iff.1 hstore
    rw [hempty hs]
    exact follows_empty

/-- **What a server leaves on screen.** When a server is gone that alone has published diagnostics
of a document, nothing of them is on screen, exactly if the server did not take them back while
the document was hidden and earlier ones were on screen. -/
theorem run_removed {sessions : List Session} (h : ∀ s ∈ sessions, s.diagnostics = .empty)
    (completion : CompletionSettings) (moments : List WorkspaceMoment) (name uri : String)
    (hgone : ((start sessions completion).run moments).workspace.sessions.get? name = none)
    (halone : ∀ s ∈ sessions, s.name ≠ name → DiagnosticEvent.publications uri
      (((start sessions completion).run moments).events s.name) = []) :
    let t := (start sessions completion).run moments
    screen uri t.told = [] ↔
      ¬(DiagnosticEvent.HeldBack uri (t.events name) ∧
        DiagnosticEvent.latest uri (t.events name) = [] ∧
        DiagnosticEvent.onScreen uri (t.events name) ≠ []) := by
  intro t
  have ht : t.Shows (sessions.map Session.name) name uri :=
    shows_run moments (shows_start h completion)
  have hout : name ∉ (storesOf t.workspace.sessions).names := by
    rw [names_storesOf]
    exact Keyed.get?_eq_none_iff.1 hgone
  have hone : DiagnosticEvent.Alone name uri t.events := by
    intro other ho
    by_cases hk : other ∈ sessions.map Session.name
    · obtain ⟨s, hs, rfl⟩ := List.mem_map.1 hk
      exact halone s hs ho
    · rw [(Displays.unknown ht hk).2]
      rfl
  rw [Displays.gone ht hout hone]
  constructor
  · rintro (hlatest | hscreen) ⟨-, hnil, hne⟩
    · exact hlatest hnil
    · exact hne hscreen
  · intro hx
    by_contra hn
    obtain ⟨hlatest, hne⟩ := not_or.1 hn
    refine hx ⟨?_, not_not.1 hlatest, hne⟩
    by_contra hheld
    exact hne ((DiagnosticEvent.onScreen_of_not_heldBack hheld).trans (not_not.1 hlatest))

/-! ### A server that is lost -/

/-- A server publishes diagnostics. -/
def publishes (items : List Json) : Inbound :=
  .frame ⟨[], [], (Outgoing.notification "textDocument/publishDiagnostics" (some (.obj
    [("uri", .str "file:///a.py"), ("diagnostics", .arr items)]))).body⟩

/-- A diagnostic on the first line. -/
def mistake : Json :=
  .obj [("range", .obj [("start", .obj [("line", .int 0), ("character", .int 0)]),
      ("end", .obj [("line", .int 0), ("character", .int 1)])]), ("message", .str "mistake")]

/-- Some items come in from the server, and the sessions are pumped. -/
def comes (items : List Inbound) (visible : Bool) : List WorkspaceMoment :=
  [.act (.between ⟨"srv", fun c => { c with inbound := items }⟩), .act (.pump (fun _ => visible) 0)]

theorem run_removed_shown :
    let t := (start [unanswered] .standard).run (comes [publishes [mistake], .closed] true)
    t.workspace.sessions.get? "srv" = none ∧
      DiagnosticEvent.publications "file:///a.py" (t.events "srv") ≠ [] ∧
      screen "file:///a.py" t.told = [] := by
  intro t
  have hgone : t.workspace.sessions.get? "srv" = none :=
    Option.isNone_iff_eq_none.1 (by decide +kernel)
  have hlatest : DiagnosticEvent.latest "file:///a.py" (t.events "srv") ≠ [] := by decide +kernel
  refine ⟨hgone, by decide +kernel, (run_removed (fun s hs => ?_) .standard _ "srv" _ hgone
    fun s hs hne => ?_).2 fun hx => hlatest hx.2.1⟩
  · rw [List.mem_singleton.1 hs]
    rfl
  · rw [List.mem_singleton.1 hs] at hne
    exact absurd rfl hne

/-- A server that takes its diagnostics back while the document is hidden, and is lost, leaves
them on screen. -/
theorem mistake_left :
    let t := (start [unanswered] .standard).run (comes [publishes [mistake]] true ++
      comes [publishes []] false ++ comes [.closed] false)
    (t.workspace.sessions.get? "srv").isNone = true ∧
      DiagnosticEvent.publications "file:///a.py" (t.events "srv") ≠ [] ∧
      screen "file:///a.py" t.told ≠ [] := by
  decide +kernel

end WorkspaceTrace

end LanguageClient
