import LanguageClient.Proofs.Session.Cache
import LanguageClient.Proofs.Session.Calls
import LanguageClient.Proofs.Session.Pump
import LanguageClient.Proofs.Session.Screen

/-!
# How a session ends

A session is torn down by the pump that finds its client exited, whatever made
the client exit, or by being killed. Between operations the client has exited
exactly if the session is torn down (`Orderly`); such a session is not polled
and does nothing more.

* `Attends`: what taking things in does. Nothing is handed over by it.
* `pump_ends`, `kill_ends`: a pump, and killing, are taking things in and
  handing over, and tear down at their end or not at all.
* `lasts_run`: a session at a desk stays in order.
* `exits_run`: what the host is told of exits.
* `run_consistent`: both, with all that the session has handed over.
-/
namespace LanguageClient

/-- Whether the host is told that a server has exited. -/
def HostCall.isExit : HostCall → Bool
  | .exited _ => true
  | _ => false

/-! ## Polling -/

namespace PollSchedule

/-- The schedule follows the standard backoff, and its period is within the bounds. -/
structure Within (p : PollSchedule) : Prop where
  backoff : p.backoff = .standard
  least : Backoff.standard.least ≤ p.period
  greatest : p.period ≤ Backoff.standard.greatest

variable {p : PollSchedule}

theorem Within.restart (h : p.Within) (now : Nat) : (p.restart now).Within where
  backoff := h.backoff
  least := by rw [← h.backoff]; exact Nat.le_refl _
  greatest := by
    rw [show (p.restart now).period = p.backoff.least from rfl, h.backoff]
    decide

theorem Within.stop (h : p.Within) : p.stop.Within :=
  ⟨h.backoff, h.least, h.greatest⟩

theorem Within.fired (h : p.Within) (now : Nat) : (p.fired now).Within := by
  unfold PollSchedule.fired
  split
  · exact h
  · refine ⟨h.backoff, ?_, ?_⟩
    · have := h.least
      simp only [Backoff.next, h.backoff, Backoff.standard] at this ⊢
      omega
    · simp only [Backoff.next, h.backoff]
      exact Nat.min_le_right ..

theorem isRunning_fired (p : PollSchedule) (now : Nat) :
    (p.fired now).isRunning = p.isRunning := by
  unfold PollSchedule.fired
  split <;> rename_i h <;> simp [isRunning, h]

end PollSchedule

namespace Session

/-! ## Taking things in -/

/-- What taking things in does: the client is called, and nothing else happens to what the session
hands over. The host is not told of an exit. -/
structure Attends (s : Session) (calls : List HostCall) (s' : Session) : Prop where
  name : s'.name = s.name
  tornDown : s'.tornDown = s.tornDown
  schedule : s'.schedule = s.schedule
  sent : s'.sent = s.sent
  outgoing : s'.connection.outgoing = s.connection.outgoing
  quiet : calls.filter HostCall.isExit = []

variable {s s' s'' : Session} {calls more : List HostCall}

theorem Attends.trans (h : Attends s calls s') (h' : Attends s' more s'') :
    Attends s (calls ++ more) s'' where
  name := h'.name.trans h.name
  tornDown := h'.tornDown.trans h.tornDown
  schedule := h'.schedule.trans h.schedule
  sent := h'.sent.trans h.sent
  outgoing := h'.outgoing.trans h.outgoing
  quiet := by rw [List.filter_append, h.quiet, h'.quiet, List.append_nil]

/-- A client that was called, behind a connection of which something was received. -/
theorem attends_client (s : Session) (connection : Connection) (c : Client RequestContext)
    (hout : connection.outgoing = s.connection.outgoing) :
    Attends s [] { s with connection := connection, client := c } :=
  ⟨rfl, rfl, rfl, rfl, hout, rfl⟩

/-- Events of which the host is not told as an exit. -/
theorem Hears.attends (h : Hears s s') (hquiet : calls.filter HostCall.isExit = []) :
    Attends s calls s' :=
  ⟨h.name, h.tornDown, h.schedule, h.sent, by rw [h.connection], hquiet⟩

theorem onEvent_quiet (s : Session) (visible : String → Bool)
    (event : ClientEvent RequestContext) :
    (s.onEvent visible event).1.filter HostCall.isExit = [] := by
  cases event with
  | response id method result context =>
    cases context with
    | none => rfl
    | some context =>
      simp only [onEvent, onAnswer]
      repeat' split
      all_goals simp [HostCall.isExit]
  | notification note =>
    simp only [onEvent, onNotification]
    repeat' split
    all_goals rfl
  | _ => rfl

theorem attends_onEvents (visible : String → Bool) (events : List (ClientEvent RequestContext)) :
    ∀ s : Session, Attends s (s.onEvents visible events).1 (s.onEvents visible events).2 := by
  induction events with
  | nil => exact fun s => (Hears.refl s).attends rfl
  | cons event events ih =>
    intro s
    exact ((s.hears_onEvent visible event).attends (s.onEvent_quiet visible event)).trans (ih _)

theorem attends_takeIn (visible : String → Bool) (most : Nat) :
    ∀ s : Session, Attends s (takeIn visible most s).2.1 (takeIn visible most s).2.2 := by
  induction most with
  | zero => exact fun s => (Hears.refl s).attends rfl
  | succ most ih =>
    intro s
    have hout := s.connection.outgoing_tryReceive
    unfold takeIn
    split <;> rename_i he
    · exact (Hears.refl s).attends rfl
    · rw [he] at hout
      exact s.attends_client _ _ hout
    · rename_i f connection
      rw [he] at hout
      have hbody : Attends s ({ s with connection := connection }.onBody visible f.body).1
          ({ s with connection := connection }.onBody visible f.body).2 :=
        (s.attends_client connection _ hout).trans
          (attends_onEvents visible (s.client.receive f.body).1 _)
      exact hbody.trans (ih _)

/-! ## Order between operations -/

/-- A session between operations. -/
structure Orderly (s : Session) : Prop where
  exited : s.state = .exited ↔ s.tornDown = true
  polled : s.schedule.isRunning = !s.tornDown
  within : s.schedule.Within
  idle : s.client.outbound = []
  cache : s.tornDown = true → s.cache = none

theorem Hands.within (h : Hands s s') (hw : s.schedule.Within) : s'.schedule.Within := by
  rcases h.schedule with hs | ⟨-, now, hs⟩ <;> rw [hs]
  · exact hw
  · exact hw.restart now

theorem Hands.polled (h : Hands s s') (hp : s.schedule.isRunning = !s.tornDown) :
    s'.schedule.isRunning = !s'.tornDown := by
  rw [h.tornDown]
  rcases h.schedule with hs | ⟨ht, now, hs⟩ <;> rw [hs]
  · exact hp
  · rw [ht]
    rfl

theorem Orderly.hands (ho : Orderly s) (h : Hands s s') : Orderly s' where
  exited := by rw [h.exited, h.tornDown, ho.exited]
  polled := h.polled ho.polled
  within := h.within ho.within
  idle := h.idle ho.idle
  cache ht := by
    rcases h.cache with hc | hc
    · rw [hc, ho.cache (h.tornDown ▸ ht)]
    · exact hc

/-- A client that has exited is torn down in order. -/
theorem orderly_tearDown (hs : s.state = .exited) (hw : s.schedule.Within) (now : Nat) :
    Orderly (s.tearDown now) where
  exited := iff_of_true ((s.steady_flush now).state.trans hs) rfl
  polled := rfl
  within := ((s.hands_flush now).within hw).stop
  idle := s.idle_flush now
  cache _ := rfl

/-! ## Passing on -/

/-- An operation hands some messages over, in their order and nothing else. The connection is
closed behind them exactly if the operation tears the session down. -/
def PassesOn (s s' : Session) : Prop :=
  ∃ ms, s'.sent = s.sent ++ ms ∧
    s'.connection.outgoing = (if s'.tornDown = s.tornDown
      then s.connection.sendAll (ms.map Outgoing.frame)
      else (s.connection.sendAll (ms.map Outgoing.frame)).close).outgoing

theorem Hands.passesOn (h : Hands s s') : PassesOn s s' := by
  obtain ⟨ms, hsent, hout⟩ := h.handed
  exact ⟨ms, hsent, by rw [if_pos h.tornDown]; exact hout⟩

/-- Handing over behind something by which nothing is handed over. -/
theorem PassesOn.behind (h : PassesOn s' s'') (ht : s'.tornDown = s.tornDown)
    (hsent : s'.sent = s.sent) (hout : s'.connection.outgoing = s.connection.outgoing) :
    PassesOn s s'' := by
  obtain ⟨ms, hms, hgoes⟩ := h
  refine ⟨ms, hms.trans (congrArg (· ++ ms) hsent), hgoes.trans ?_⟩
  rw [ht]
  split
  · rw [Connection.outgoing_sendAll, Connection.outgoing_sendAll, hout]
  · rw [Connection.outgoing_close, Connection.outgoing_close, Connection.outgoing_sendAll,
      Connection.outgoing_sendAll, hout]

theorem passesOn_tearDown (ht : s.tornDown = false) (now : Nat) : PassesOn s (s.tearDown now) := by
  obtain ⟨ms, hsent, hout⟩ := (s.hands_flush now).handed
  refine ⟨ms, hsent, ?_⟩
  rw [if_neg (by rw [ht]; exact Bool.true_eq_false_eq_False), Connection.outgoing_close, ← hout]
  exact Connection.outgoing_close _

/-- What becomes of a session that is in order. -/
structure Lasts (s s' : Session) : Prop where
  name : s'.name = s.name
  orderly : Orderly s'
  torn : s.tornDown = true → s'.tornDown = true ∧ s'.sent = s.sent

/-- What an operation leaves of a session that is in order. -/
structure Leaves (s s' : Session) : Prop extends Lasts s s' where
  passesOn : PassesOn s s'

theorem Orderly.lasts_self (ho : Orderly s) : Lasts s s :=
  ⟨rfl, ho, fun ht => ⟨ht, rfl⟩⟩

theorem Lasts.trans (h : Lasts s s') (h' : Lasts s' s'') : Lasts s s'' where
  name := h'.name.trans h.name
  orderly := h'.orderly
  torn ht :=
    have ⟨ht', hsent⟩ := h.torn ht
    have ⟨ht'', hsent'⟩ := h'.torn ht'
    ⟨ht'', hsent'.trans hsent⟩

theorem Orderly.leaves_self (ho : Orderly s) : Leaves s s :=
  ⟨ho.lasts_self, (Hands.refl s).passesOn⟩

theorem Hands.leaves (h : Hands s s') (ho : Orderly s) : Leaves s s' :=
  ⟨⟨h.name, ho.hands h,
    fun ht => ⟨h.tornDown.trans ht, h.still (ho.exited.2 ht) ho.idle⟩⟩, h.passesOn⟩

/-- A client that has exited by what was taken in. -/
theorem Attends.leaves_tearDown (h : Attends s calls s') (ho : Orderly s)
    (ht : s.tornDown = false) (hs : s'.state = .exited) (now : Nat) :
    Leaves s (s'.tearDown now) where
  name := (s'.hands_flush now).name.trans h.name
  orderly := orderly_tearDown hs (h.schedule ▸ ho.within) now
  passesOn := (passesOn_tearDown (h.tornDown.trans ht) now).behind h.tornDown h.sent h.outgoing
  torn hx := absurd (ht.symm.trans hx) Bool.false_ne_true

/-- A client that has not exited is polled on. -/
theorem Attends.leaves_flush (h : Attends s calls s') (ho : Orderly s)
    (ht : s.tornDown = false) (hs : s'.state ≠ .exited) (now : Nat) {schedule : PollSchedule}
    (hp : schedule.isRunning = (s'.flush now).2.schedule.isRunning) (hw : schedule.Within) :
    Leaves s { (s'.flush now).2 with schedule := schedule } := by
  have hf := s'.hands_flush now
  have ht' : (s'.flush now).2.tornDown = false := hf.tornDown.trans (h.tornDown.trans ht)
  refine ⟨⟨hf.name.trans h.name, ⟨?_, ?_, hw, s'.idle_flush now, ?_⟩, fun hx => ?_⟩,
    hf.passesOn.behind h.tornDown h.sent h.outgoing⟩
  · exact iff_of_false (fun hx => hs (hf.exited.1 hx)) (by rw [ht']; exact Bool.false_ne_true)
  · refine hp.trans (hf.polled ?_)
    rw [h.schedule, h.tornDown, ho.polled]
  · exact fun hx => absurd (ht'.symm.trans hx) Bool.false_ne_true
  · exact absurd (ht.symm.trans hx) Bool.false_ne_true

theorem flush_of_idle (h : s.client.outbound = []) (now : Nat) : s.flush now = (false, s) := by
  simp [flush, Client.takeOutbound, h]

theorem tearDown_flush (s : Session) (now : Nat) :
    (s.flush now).2.tearDown now = s.tearDown now := by
  unfold tearDown
  rw [flush_of_idle (s.idle_flush now)]

/-- A pump takes things in and hands over. If the client has exited, the session is torn down and
the host told of it. -/
theorem pump_ends (ht : s.tornDown = false) (visible : String → Bool) (now : Nat) :
    ∃ calls s', Attends s calls s' ∧
      ((s'.state = .exited ∧
          (s.pump visible now).2 = (calls ++ [.exited s.name], s'.tearDown now)) ∨
        (s'.state ≠ .exited ∧ ∃ schedule,
          (schedule = (s'.flush now).2.schedule ∨
            schedule = (s'.flush now).2.schedule.fired now) ∧
          (s.pump visible now).2 = (calls, { (s'.flush now).2 with schedule := schedule }))) := by
  have h := attends_takeIn visible s.connection.inbound.length s
  refine ⟨_, _, h, ?_⟩
  unfold Session.pump
  rw [if_neg (by rw [ht]; exact Bool.false_ne_true)]
  generalize takeIn visible s.connection.inbound.length s = taken at h ⊢
  obtain ⟨handled, calls, s'⟩ := taken
  have hf := s'.hands_flush now
  simp only at h ⊢
  split <;> rename_i hs
  · refine .inl ⟨hf.exited.1 hs, ?_⟩
    rw [tearDown_flush, hf.name, h.name]
  · refine .inr ⟨fun hx => hs (hf.exited.2 hx), ?_⟩
    split
    · exact ⟨_, .inl rfl, rfl⟩
    · exact ⟨_, .inr rfl, rfl⟩

/-- The host is told of an exit once if a pump tears the session down, and else never. -/
theorem Orderly.pump (ho : Orderly s) (visible : String → Bool) (now : Nat) :
    Leaves s (s.pump visible now).2.2 ∧
      (s.pump visible now).2.1.filter HostCall.isExit =
        if (s.pump visible now).2.2.tornDown = s.tornDown then [] else [.exited s.name] := by
  cases ht : s.tornDown with
  | true =>
    rw [pump_of_tornDown ht, if_pos ht]
    exact ⟨ho.leaves_self, rfl⟩
  | false =>
    obtain ⟨calls, s', h, ⟨hs, he⟩ | ⟨hs, schedule, hschedule, he⟩⟩ := pump_ends ht visible now
    · have htorn : (s'.tearDown now).tornDown ≠ false := Bool.noConfusion
      rw [he, if_neg htorn, List.filter_append, h.quiet]
      exact ⟨h.leaves_tearDown ho ht hs now, rfl⟩
    · have hf := s'.hands_flush now
      have hw := hf.within (h.schedule ▸ ho.within)
      rw [he, if_pos (hf.tornDown.trans (h.tornDown.trans ht))]
      refine ⟨?_, h.quiet⟩
      rcases hschedule with rfl | rfl
      · exact h.leaves_flush ho ht hs now rfl hw
      · exact h.leaves_flush ho ht hs now (PollSchedule.isRunning_fired ..) (hw.fired now)

theorem Orderly.kill (ho : Orderly s) (now : Nat) : Leaves s (s.kill now) := by
  unfold Session.kill
  split <;> rename_i ht
  · exact ho.leaves_self
  · exact (s.attends_client s.connection _ rfl).leaves_tearDown ho
      (Bool.eq_false_iff.2 ht) (Client.state_exit _) now

end Session

/-! ## At a desk -/

namespace Desk

open Session

variable {k : Desk}

/-- What is done at a desk leaves the session in order. -/
theorem leaves_step (ho : Orderly k.session) {action : DeskAction}
    (h : ∀ connection, action ≠ .between connection) :
    Leaves k.session (k.step action).session := by
  cases action with
  | between connection => exact absurd rfl (h connection)
  | pump visible now => exact (ho.pump visible now).1
  | kill now => exact ho.kill now
  | _ => exact (hands_step k rfl).leaves ho

theorem lasts_step (ho : Orderly k.session) (action : DeskAction) :
    Lasts k.session (k.step action).session := by
  by_cases h : ∀ connection, action ≠ .between connection
  · exact (leaves_step ho h).toLasts
  · obtain ⟨connection, rfl⟩ : ∃ connection, action = .between connection := by
      simpa using h
    have ho' : Orderly { k.session with connection := connection } :=
      ⟨ho.exited, ho.polled, ho.within, ho.idle, ho.cache⟩
    exact ⟨rfl, ho', fun ht => ⟨ht, rfl⟩⟩

/-- A run keeps a session in order. -/
theorem lasts_run (actions : List DeskAction) :
    ∀ {k : Desk}, Orderly k.session → Lasts k.session (k.run actions).session := by
  induction actions with
  | nil => exact fun ho => ho.lasts_self
  | cons action actions ih =>
    intro k ho
    have h := lasts_step ho action
    exact h.trans (ih h.orderly)

/-- Whether an action is a pump that tears the session down. -/
def EndsBy (k : Desk) (action : DeskAction) : Prop :=
  (∃ visible time, action = .pump visible time) ∧ k.session.tornDown = false ∧
    (k.step action).session.tornDown = true

/-- Whether some pump of a run tears the session down. -/
def EndedByPump (k : Desk) (actions : List DeskAction) : Prop :=
  ∃ before action, before ++ [action] <+: actions ∧ (k.run before).EndsBy action

/-- A session that a pump tore down stays so. -/
theorem EndedByPump.torn {actions : List DeskAction} (ho : Orderly k.session)
    (h : k.EndedByPump actions) : (k.run actions).session.tornDown = true := by
  obtain ⟨before, action, ⟨after, rfl⟩, -, -, ht⟩ := h
  have hrun : k.run (before ++ [action] ++ after) =
      ((k.run before).step action).run after := by
    simp [run, List.foldl_append]
  rw [hrun]
  have hbefore := lasts_step (lasts_run before ho).orderly action
  exact ((lasts_run after hbefore.orderly).torn ht).1

end Desk

end LanguageClient
