import LanguageClient.Proofs.Diagnostic.Screen
import LanguageClient.Proofs.Session.Arrivals

/-!
# What a session puts on screen

The diagnostics that a server publishes and the documents that the host comes
to show make a history of events (`DeskTrace`). A session follows it: its
store knows what the history says, and what it tells the host puts on screen
what the history does (`Follows`, `screen_takeAll`), whatever else happens in
between and whenever the host changes what it shows.

* `Reports`: an operation takes some events in. `reports_takeIn` is taking
  things in, frame by frame, and `reports_pump` a whole pump.
* `run_screen`: what is on screen agrees with the store, except for the
  documents that are held back.
-/
namespace LanguageClient

open HostCall

/-! ## Publications -/

/-- The diagnostics that an event brings. -/
def ClientEvent.publication? (visible : String → Bool) :
    ClientEvent RequestContext → Option DiagnosticEvent
  | .notification (.publishDiagnostics uri _ items) => some (.published uri items (visible uri))
  | _ => none

def publication? (visible : String → Bool) (body : List UInt8) : Option DiagnosticEvent :=
  match Incoming.decode body with
  | .ok (.notification (.publishDiagnostics uri _ items)) =>
    some (.published uri items (visible uri))
  | _ => none

namespace Client

variable (visible : String → Bool) (c : Client RequestContext)

theorem publications_settle (p : PendingRequest RequestContext)
    (outcome : Except ResponseError Json) :
    (c.settle p outcome).1.filterMap (ClientEvent.publication? visible) = [] := by
  rcases c.settle_cases p outcome with
    ⟨result, -, -, he⟩ | ⟨e, -, -, he⟩ | ⟨-, he⟩ | ⟨result, -, -, -, he⟩ | ⟨e, -, -, -, he⟩ <;>
    rw [he]
  · rw [(c.finishHandshake_cases result).1]
    rfl
  all_goals rfl

/-- Diagnostics come by a notification, and by nothing else. -/
theorem publications_receive (body : List UInt8) :
    (c.receive body).1.filterMap (ClientEvent.publication? visible) =
      (publication? visible body).toList := by
  unfold publication?
  cases h : Incoming.decode body with
  | error e =>
    rw [receive, h]
    rfl
  | ok m =>
    cases m with
    | response id outcome =>
      rw [receive_of_response h]
      cases hp : id.number?.bind c.pending? with
      | none =>
        rw [onResponse_of_none outcome hp]
        rfl
      | some p =>
        rw [onResponse_of_some outcome hp]
        exact publications_settle visible (c.without p) p outcome
    | request id r =>
      rw [receive_of_request h]
      cases r <;> rfl
    | notification note =>
      rw [receive, h]
      cases note <;> rfl

end Client

/-! ## Taking events in -/

namespace Session

/-- An operation that takes some events in: the store does, and tells the host of them. -/
structure Reports (s : Session) (calls : List HostCall) (s' : Session)
    (events : List DiagnosticEvent) : Prop where
  store : s'.diagnostics = (s.diagnostics.takeAll events).2
  lines : ∀ uri, linesOf uri calls = linesOf uri (s.diagnostics.takeAll events).1

variable {s s' s'' : Session} {calls more : List HostCall}

/-- An operation that has nothing to do with diagnostics. -/
theorem Reports.of_eq (h : s'.diagnostics = s.diagnostics)
    (hc : ∀ uri, ∀ call ∈ calls, lines? uri call = none) : Reports s calls s' [] :=
  ⟨h, fun uri => List.filterMap_eq_nil_iff.2 (hc uri)⟩

theorem Reports.trans {events events' : List DiagnosticEvent} (h : Reports s calls s' events)
    (h' : Reports s' more s'' events') : Reports s (calls ++ more) s'' (events ++ events') where
  store := by rw [h'.store, h.store, DiagnosticStore.takeAll_append]
  lines uri := by
    rw [linesOf_append, h.lines, h'.lines, h.store, DiagnosticStore.takeAll_append, linesOf_append]

theorem reports_onAnswer (s : Session) (id : Int) (method : String) (result : Json)
    (context : RequestContext) :
    Reports s (s.onAnswer id method result context).1 (s.onAnswer id method result context).2
      [] := by
  unfold onAnswer
  repeat' split
  all_goals exact .of_eq rfl (by simp [lines?])

theorem reports_onEvent (s : Session) (visible : String → Bool)
    (event : ClientEvent RequestContext) :
    Reports s (s.onEvent visible event).1 (s.onEvent visible event).2
      (event.publication? visible).toList := by
  cases event with
  | response id method result context =>
    cases context with
    | none => exact .of_eq rfl (by simp [onEvent, lines?])
    | some context => exact s.reports_onAnswer id method result context
  | notification note =>
    cases note with
    | publishDiagnostics uri version items => exact ⟨rfl, fun _ => by
        simp [onEvent, onNotification, ClientEvent.publication?, DiagnosticStore.takeAll,
          DiagnosticStore.take]⟩
    | logMessage kind text =>
      unfold onEvent onNotification
      simp only
      split <;> exact .of_eq rfl (by simp [lines?])
    | _ => exact .of_eq rfl (by simp [onEvent, onNotification, lines?])
  | _ => exact .of_eq rfl (by simp [onEvent, lines?])

theorem reports_onEvents (visible : String → Bool) (events : List (ClientEvent RequestContext)) :
    ∀ s : Session, Reports s (s.onEvents visible events).1 (s.onEvents visible events).2
      (events.filterMap (ClientEvent.publication? visible)) := by
  induction events with
  | nil => exact fun s => .of_eq rfl (by simp [onEvents])
  | cons event events ih =>
    intro s
    rw [List.filterMap_eq_flatMap_toList, List.flatMap_cons, ← List.filterMap_eq_flatMap_toList]
    exact (s.reports_onEvent visible event).trans (ih _)

theorem reports_onBody (s : Session) (visible : String → Bool) (body : List UInt8) :
    Reports s (s.onBody visible body).1 (s.onBody visible body).2
      (publication? visible body).toList := by
  have h := reports_onEvents visible (s.client.receive body).1
    { s with client := (s.client.receive body).2 }
  rw [s.client.publications_receive visible body] at h
  exact ⟨h.store, h.lines⟩

theorem reports_onBodies (visible : String → Bool) (bodies : List (List UInt8)) :
    ∀ s : Session, Reports s (onBodies visible bodies s).1 (onBodies visible bodies s).2
      (bodies.filterMap (publication? visible)) := by
  induction bodies with
  | nil => exact fun s => .of_eq rfl (by simp [onBodies])
  | cons body bodies ih =>
    intro s
    rw [List.filterMap_eq_flatMap_toList, List.flatMap_cons, ← List.filterMap_eq_flatMap_toList]
    exact (s.reports_onBody visible body).trans (ih _)

/-- Taking things in reports the diagnostics of the frames, as the host shows documents then. -/
theorem reports_takeIn (s : Session) (visible : String → Bool) (most : Nat) :
    Reports s (takeIn visible most s).2.1 (takeIn visible most s).2.2
      ((s.connection.waiting most).filterMap (publication? visible)) := by
  have h := reports_onBodies visible (s.connection.waiting most) s
  obtain ⟨connection, he | he⟩ := takeIn_cases visible most s <;> rw [he] <;>
    exact ⟨h.store, h.lines⟩

theorem reports_pump (s : Session) (visible : String → Bool) (now : Nat) :
    Reports s (s.pump visible now).2.1 (s.pump visible now).2.2
      (s.arrivals.filterMap (publication? visible)) := by
  have h := reports_onBodies visible s.arrivals s
  cases hs : s.tornDown with
  | true =>
    rw [pump_of_tornDown hs, arrivals, if_pos hs]
    exact .of_eq rfl (by simp)
  | false =>
    obtain ⟨t, hunheard, -, he | ⟨name, he⟩⟩ := pump_cases hs visible now <;> rw [he]
    · exact ⟨hunheard.diagnostics.trans h.store, h.lines⟩
    · refine ⟨(t.tearDown_heard now).1.trans (hunheard.diagnostics.trans h.store), fun uri => ?_⟩
      rw [← h.lines uri, linesOf_append]
      simp [linesOf, lines?, taken]

theorem reports_shown (s : Session) (uri : String) :
    Reports s (s.shown uri).1 (s.shown uri).2 [.shown uri] := by
  unfold shown
  split <;> rename_i he
  · exact ⟨by simp [DiagnosticStore.takeAll, DiagnosticStore.take, he],
      fun _ => by simp [DiagnosticStore.takeAll, DiagnosticStore.take, he]⟩
  · have hd : (s.diagnostics.shown uri).2 = s.diagnostics := by
      unfold DiagnosticStore.shown at he ⊢
      split at he
      · cases he
      · rename_i hx
        rw [if_neg hx]
    exact ⟨by simp [DiagnosticStore.takeAll, DiagnosticStore.take, hd],
      fun _ => by simp [DiagnosticStore.takeAll, DiagnosticStore.take, he]⟩

theorem shown_calls (s : Session) (uri : String) : (s.shown uri).1 =
    if s.diagnostics.isDirty uri then [.diagnostics uri (s.diagnostics.byLine uri)] else [] := by
  unfold shown DiagnosticStore.shown
  by_cases hd : s.diagnostics.isDirty uri = true
  · rw [if_pos hd, if_pos hd]
    rfl
  · rw [if_neg hd, if_neg hd]

end Session

/-! ## Runs -/

namespace Desk

/-- What the host is told of by an action. -/
def calls (k : Desk) : DeskAction → List HostCall
  | .pump visible now => (k.session.pump visible now).2.1
  | .shown uri => (k.session.shown uri).1
  | _ => []

/-- What happens to the diagnostics of documents by an action. -/
def events (k : Desk) : DeskAction → List DiagnosticEvent
  | .pump visible _ => k.session.arrivals.filterMap (publication? visible)
  | .shown uri => [.shown uri]
  | _ => []

theorem diagnostics_didClose (s : Session) (d : Document) (text : String) (now : Nat) :
    (s.didClose d text now).2.2.diagnostics = s.diagnostics := by
  have hdrop : ∀ (s₁ : Session) uri, (s₁.dropCache uri).diagnostics = s₁.diagnostics := by
    intro s₁ uri
    unfold Session.dropCache
    split <;> rfl
  rcases Session.didClose_unheard (P := fun _ => False) s d text now with
    ⟨-, h⟩ | ⟨-, s₁, h, he⟩
  · exact h.diagnostics
  · rw [he, hdrop, h.diagnostics]

/-- Every action reports what happens to diagnostics by it. -/
theorem reports_step (k : Desk) (action : DeskAction) :
    k.session.Reports (k.calls action) (k.step action).session (k.events action) := by
  have none {s' : Session} (h : s'.diagnostics = k.session.diagnostics) :
      k.session.Reports [] s' [] := .of_eq h (by simp)
  cases action with
  | pump visible now => exact k.session.reports_pump visible now
  | shown uri => exact k.session.reports_shown uri
  | didClose uri text now =>
    refine none ?_
    simp only [step, onDocument]
    split
    · rfl
    · exact diagnostics_didClose ..
  | kill now => exact none (k.session.kill_heard now).1
  | _ => exact none (k.unheard_step rfl).diagnostics

end Desk

/-- What happens at a desk. The host may come to show other documents between two frames that a
pump takes in. -/
inductive DeskMoment where
  | act (action : DeskAction)
  /-- A part of a pump: at most as many items are taken in as given. -/
  | takeIn (visible : String → Bool) (most : Nat)

/-- A desk with all that its host was told, and all that happened to the diagnostics of documents.
-/
structure DeskTrace where
  desk : Desk
  told : List HostCall
  events : List DiagnosticEvent

namespace DeskTrace

def start (name : String) (connection : Connection) (options : ClientOptions)
    (completion : CompletionSettings) (processId now : Nat) : DeskTrace :=
  ⟨.start name connection options completion processId now, [], []⟩

def step (t : DeskTrace) : DeskMoment → DeskTrace
  | .act action =>
    ⟨t.desk.step action, t.told ++ t.desk.calls action, t.events ++ t.desk.events action⟩
  | .takeIn visible most =>
    if t.desk.session.tornDown then t
    else
      ⟨{ t.desk with session := (Session.takeIn visible most t.desk.session).2.2 },
        t.told ++ (Session.takeIn visible most t.desk.session).2.1,
        t.events ++ (t.desk.session.connection.waiting most).filterMap (publication? visible)⟩

def run (t : DeskTrace) (moments : List DeskMoment) : DeskTrace :=
  moments.foldl step t

/-- The store knows what happened, and what is on screen is what this puts there. -/
structure Shows (t : DeskTrace) : Prop where
  follows : t.desk.session.diagnostics.Follows t.events
  screen : ∀ uri, screen uri t.told = Diagnostic.byLine (DiagnosticEvent.onScreen uri t.events)

theorem Shows.reports {t : DeskTrace} (h : t.Shows) {k : Desk} {calls : List HostCall}
    {events : List DiagnosticEvent} (hr : t.desk.session.Reports calls k.session events) :
    Shows ⟨k, t.told ++ calls, t.events ++ events⟩ where
  follows := by
    rw [hr.store]
    exact DiagnosticStore.follows_takeAll h.follows events
  screen uri := DiagnosticStore.screen_takeAll h.follows (h.screen uri) events (hr.lines uri)

theorem shows_start (name : String) (connection : Connection) (options : ClientOptions)
    (completion : CompletionSettings) (processId now : Nat) :
    Shows (start name connection options completion processId now) where
  follows := by
    have hd : (Session.start name connection options completion processId now).diagnostics =
        .empty := (Session.flush_heard _ now).1
    unfold start Desk.start
    rw [hd]
    exact DiagnosticStore.follows_empty
  screen _ := rfl

theorem shows_step {t : DeskTrace} (h : t.Shows) (moment : DeskMoment) : (t.step moment).Shows := by
  cases moment with
  | act action => exact h.reports (t.desk.reports_step action)
  | takeIn visible most =>
    simp only [step]
    split
    · exact h
    · exact h.reports
        (k := { t.desk with session := (Session.takeIn visible most t.desk.session).2.2 })
        (t.desk.session.reports_takeIn visible most)

theorem shows_run (moments : List DeskMoment) :
    ∀ {t : DeskTrace}, t.Shows → (t.run moments).Shows := by
  induction moments with
  | nil => exact fun h => h
  | cons moment moments ih => exact fun h => ih (shows_step h moment)

/-- **What is on screen agrees with the store.** Whatever is done with a session, whatever comes in
and whatever the host shows at each moment: the store has the diagnostics of a document that came
last. They are held back exactly if the document was hidden when they came and was not shown
since; else the lines on screen are theirs. If the document comes to be shown, the host is told
of them exactly if they were held back. -/
theorem run_screen (name : String) (connection : Connection) (options : ClientOptions)
    (completion : CompletionSettings) (processId now : Nat) (moments : List DeskMoment)
    (uri : String) :
    let t := (start name connection options completion processId now).run moments
    let s := t.desk.session
    s.diagnostics.get uri = DiagnosticEvent.latest uri t.events ∧
      (s.diagnostics.isDirty uri = true ↔ DiagnosticEvent.HeldBack uri t.events) ∧
      (s.diagnostics.isDirty uri = false →
        screen uri t.told = Diagnostic.byLine (s.diagnostics.get uri)) ∧
      (s.shown uri).1 = if s.diagnostics.isDirty uri then
        [.diagnostics uri (Diagnostic.byLine (s.diagnostics.get uri))] else [] := by
  intro t s
  have h : t.Shows := shows_run moments (shows_start ..)
  refine ⟨h.follows.get uri, h.follows.dirty uri, fun hd => ?_, s.shown_calls uri⟩
  have hheld : ¬DiagnosticEvent.HeldBack uri t.events := fun hx => by
    rw [← h.follows.dirty, hd] at hx
    cases hx
  rw [h.screen, DiagnosticEvent.onScreen_of_not_heldBack hheld, h.follows.get]

end DeskTrace

end LanguageClient
