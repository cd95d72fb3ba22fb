import LanguageClient.Proofs.Session.Pump

/-!
# Sessions between operations

What holds of a session between two operations (`Sound`), whatever its host
has done with it (`IsReachable.sound`), and what an operation on a document
does to the copies that the server has of this document and of others.

* `Serves.sound`: an operation on a document.
* `Sound.carries`: an operation about no document.
-/
namespace LanguageClient

namespace Session

/-- A session with a name, as it is between two operations. -/
structure Sound (name : String) (s : Session) : Prop where
  named : s.name = name
  stage : Lifecycle.Stage s.sent s.client
  heard : ∃ m, s.mirror? = some m
  idle : s.client.outbound = []

/-- The server has a document at its version and text. -/
def Mirrors (s : Session) (d : Document) : Prop :=
  ∃ m, s.mirror? = some m ∧ m.get? d.uri = some (d.version, d.text)

variable {s s' : Session} {name : String}

/-- What is about no document leaves the copies of the server as they are. -/
theorem Carries.mirror? (h : Carries s s') {m : Mirror} (hm : s.mirror? = some m) :
    s'.mirror? = some m := by
  obtain ⟨ms, hms, hq⟩ := h.said
  rw [Session.mirror?] at hm
  rw [Session.mirror?, hms, Mirror.replay?_append, hm, Option.bind_some, Mirror.replay?_quiet hq]

theorem Carries.mirrors (h : Carries s s') {d : Document} (hd : s.Mirrors d) : s'.Mirrors d := by
  obtain ⟨m, hm, hget⟩ := hd
  exact ⟨m, h.mirror? hm, hget⟩

theorem Sound.carries (h : Sound name s) (hc : Carries s s') (hi : s'.client.outbound = []) :
    Sound name s' where
  named := hc.name.trans h.named
  stage := hc.stage h.stage
  heard := h.heard.imp fun _ hm => hc.mirror? hm
  idle := hi

/-- An operation on a document, as its session and the document go through it. -/
structure Serves (s : Session) (d : Document) (s' : Session) (d' : Document) : Prop where
  keeps : Keeps s d s' d'
  steady : Steady s s'
  stays : d.Stays s.name d'

variable {d d' : Document}

theorem Serves.sound (h : Serves s d s' d') (hs : Sound name s)
    (hd : s.state = .running → d.server = some name → s.Mirrors d) :
    Sound name s' ∧ (s'.state = .running → d'.server = some name → s'.Mirrors d') ∧
      ∀ e : Document, e.uri ≠ d.uri → s.Mirrors e → s'.Mirrors e := by
  obtain ⟨m, hm⟩ := hs.heard
  obtain ⟨m', hm', hf, ho⟩ := h.keeps.fits m hm fun hr hx => by
    obtain ⟨m₁, hm₁, hget⟩ := hd hr (hs.named ▸ hx)
    rw [hm] at hm₁
    cases hm₁
    exact hget
  refine ⟨⟨h.keeps.name.trans hs.named, h.keeps.stage hs.stage, ⟨m', hm'⟩,
    h.steady.idle hs.idle⟩, fun hr hx => ⟨m', hm', ?_⟩, fun e he hme => ?_⟩
  · exact hf (h.keeps.state ▸ hr) (hs.named ▸ hx)
  · obtain ⟨m₁, hm₁, hget⟩ := hme
    rw [hm] at hm₁
    cases hm₁
    exact ⟨m', hm', (ho e.uri he).trans hget⟩

variable (s : Session) (d : Document) (text : String) (now : Nat)

theorem serves_didOpen : Serves s d (s.didOpen d now).2.2 (s.didOpen d now).2.1 :=
  ⟨(s.keeps_didOpen d now).1, (s.steady_didOpen d now).1, (s.steady_didOpen d now).2⟩

theorem serves_didChange : Serves s d (s.didChange d text now).2.2 (s.didChange d text now).2.1 :=
  ⟨(s.keeps_didChange d text now).1, (s.steady_didChange d text now).1,
    (s.steady_didChange d text now).2⟩

theorem serves_didSave : Serves s d (s.didSave d text now).2.2 (s.didSave d text now).2.1 :=
  ⟨s.keeps_didSave d text now, (s.steady_didSave d text now).1, (s.steady_didSave d text now).2⟩

theorem serves_didClose : Serves s d (s.didClose d text now).2.2 (s.didClose d text now).2.1 :=
  ⟨s.keeps_didClose d text now, (s.steady_didClose d text now).1,
    (s.steady_didClose d text now).2⟩

theorem serves_ask (q : DocumentQuery) :
    Serves s d (s.ask d text q now).2.2 (s.ask d text q now).2.1 :=
  ⟨s.keeps_ask d text q now, (s.steady_ask d text now q).1, (s.steady_ask d text now q).2⟩

end Session

/-! ## Sessions that a host may have -/

namespace Session

/-- A session as some host has left it. -/
def IsReachable (s : Session) : Prop :=
  ∃ name connection options completion processId now actions,
    s = ((Desk.start name connection options completion processId now).run actions).session

end Session

namespace Desk

theorem idle_onDocument {k : Desk} (h : k.session.client.outbound = []) (uri : String)
    {op : Session → Document → Document × Session}
    (hop : ∀ (s : Session) (d : Document), s.Steady (op s d).2) :
    (k.onDocument uri op).session.client.outbound = [] := by
  unfold onDocument
  split
  · exact h
  · exact (hop ..).idle h

theorem idle_step {k : Desk} (h : k.session.client.outbound = []) (action : DeskAction) :
    (k.step action).session.client.outbound = [] := by
  cases action with
  | between connection => exact h
  | place d =>
    simp only [step, place]
    split <;> exact h
  | pump visible now => exact Session.idle_pump h visible now
  | didOpen uri now => exact idle_onDocument h uri fun s d => (s.steady_didOpen d now).1
  | didChange uri text now =>
    exact idle_onDocument h uri fun s d => (s.steady_didChange d text now).1
  | didSave uri text now => exact idle_onDocument h uri fun s d => (s.steady_didSave d text now).1
  | didClose uri text now => exact idle_onDocument h uri fun s d => (s.steady_didClose d text now).1
  | ask uri text q now => exact idle_onDocument h uri fun s d => (s.steady_ask d text now q).1
  | workspaceSymbols query now => exact (k.session.steady_workspaceSymbols now query).idle h
  | shown uri => exact (k.session.steady_shown uri).idle h
  | takeCapabilitiesChanged => exact h
  | shutdown now => exact Session.idle_flush ..
  | kill now => exact Session.idle_kill h now

theorem idle_run (actions : List DeskAction) :
    ∀ {k : Desk}, k.session.client.outbound = [] →
      (k.run actions).session.client.outbound = [] := by
  induction actions with
  | nil =>
    intro s h
    exact h
  | cons action actions ih =>
    intro s h
    exact ih (idle_step h action)

end Desk

theorem Session.IsReachable.sound {s : Session} (h : s.IsReachable) : s.Sound s.name := by
  obtain ⟨name, connection, options, completion, processId, now, actions, rfl⟩ := h
  have hk := Desk.agrees_run actions
    (Desk.agrees_start name connection options completion processId now)
  obtain ⟨m, hm, -⟩ := hk.mirror
  exact ⟨rfl, hk.stage, ⟨m, hm⟩, Desk.idle_run actions (Session.idle_flush ..)⟩

end LanguageClient
