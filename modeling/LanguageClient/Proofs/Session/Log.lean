import LanguageClient.Proofs.Client.Lifecycle
import LanguageClient.Proofs.Session.Mirror
import LanguageClient.Session.Pump

/-!
# What a session queues

`Session.log` is all that a session has queued. Most of what a session does
is about no document: it takes in whatever came, answers the server, ends the
handshake, asks for symbols, shuts down and exits. `Carries` is what all of
this has in common: the client moves on in the order of its connection, and
a `Mirror` does not change by what is said.

* `notify_cases`, `request_cases`: a message of the user is queued while the
  client runs, and else nothing happens.
* `carries_pump`: a pump, over any connection.
* `carries_workspaceSymbols`, `carries_shutdown`, `carries_kill`,
  `carries_shown`: the other operations.
-/
namespace LanguageClient

/-! ## What a client says by itself -/

namespace Client

variable {Context : Type} (c : Client Context)

/-- A client says something, and nothing of it is about a document. -/
def QueuesQuiet (c c' : Client Context) : Prop :=
  ∃ ms, c'.outbound = c.outbound ++ ms ∧ ∀ message ∈ ms, Mirror.Quiet message

theorem QueuesQuiet.of_eq {c c' : Client Context} (h : c'.outbound = c.outbound) :
    QueuesQuiet c c' :=
  ⟨[], by rw [h, List.append_nil], by simp⟩

theorem QueuesQuiet.of_one {c c' : Client Context} (message : Outgoing)
    (hm : Mirror.Quiet message) (h : c'.outbound = c.outbound ++ [message]) :
    QueuesQuiet c c' :=
  ⟨[message], h, by simpa using hm⟩

theorem QueuesQuiet.trans {c₁ c₂ c₃ : Client Context} (h : QueuesQuiet c₁ c₂)
    (h' : QueuesQuiet c₂ c₃) : QueuesQuiet c₁ c₃ := by
  obtain ⟨ms, hms, hq⟩ := h
  obtain ⟨ms', hms', hq'⟩ := h'
  refine ⟨ms ++ ms', by rw [hms', hms, List.append_assoc], fun message hm => ?_⟩
  rcases List.mem_append.1 hm with hm | hm
  · exact hq message hm
  · exact hq' message hm

theorem stopping_quiet : QueuesQuiet c c.stopping :=
  .of_one (.request c.nextId Method.shutdown none)
    (show Method.shutdown ∉ Mirror.documentRequests by decide) rfl

theorem exit_quiet : QueuesQuiet c c.exit := by
  by_cases hs : c.state = .exited
  · rw [c.exit_of_exited hs]; exact .of_eq rfl
  · rw [c.exit_of_ne hs]
    exact .of_one (.notification Method.exit none)
      (by simp [Mirror.Quiet]; decide) rfl

theorem shutdown_quiet : QueuesQuiet c c.shutdown := by
  rcases c.shutdown_cases with ⟨-, he⟩ | ⟨-, he⟩ | ⟨-, he⟩ <;> rw [he]
  · exact .of_eq rfl
  · exact c.stopping_quiet
  · exact .of_eq rfl

theorem finishHandshake_quiet (result : Json) : QueuesQuiet c (c.finishHandshake result).2 := by
  have hg : QueuesQuiet c (c.greeted result) :=
    .of_one (.notification Method.started (some (.obj [])))
      (by simp [Mirror.Quiet]; decide) rfl
  obtain ⟨-, ⟨-, he⟩ | ⟨-, he⟩⟩ := c.finishHandshake_cases result <;> rw [he]
  · exact hg
  · have hg' : QueuesQuiet c { c.greeted result with deferredShutdown := false } := hg
    exact hg'.trans (stopping_quiet _)

theorem settle_quiet (p : PendingRequest Context) (outcome : Except ResponseError Json) :
    QueuesQuiet c (c.settle p outcome).2 := by
  rcases c.settle_cases p outcome with
    ⟨result, -, -, he⟩ | ⟨e, -, -, he⟩ | ⟨-, he⟩ | ⟨result, -, -, -, he⟩ | ⟨e, -, -, -, he⟩ <;>
    rw [he]
  · exact c.finishHandshake_quiet result
  · exact c.exit_quiet
  · exact c.exit_quiet
  · exact .of_eq rfl
  · exact .of_eq rfl

theorem receive_quiet (body : List UInt8) : QueuesQuiet c (c.receive body).2 := by
  rcases c.receive_cases body with ⟨id, outcome, -, he⟩ | ⟨id, r, -, he⟩ | ⟨-, he, -⟩ <;> rw [he]
  · cases hw : id.number?.bind c.pending? with
    | none => rw [c.onResponse_of_none outcome hw]; exact .of_eq rfl
    | some p => rw [c.onResponse_of_some outcome hw]; exact (c.without p).settle_quiet p outcome
  · by_cases hs : c.state = .exited
    · rw [c.onServerRequest_of_exited id r hs]; exact .of_eq rfl
    · rw [c.onServerRequest_of_ne id r hs]
      exact .of_one (.reply id (answer c.options r)) trivial rfl
  · exact .of_eq rfl

end Client

namespace Session

/-- All that was queued, in its order. -/
def log (s : Session) : List Outgoing :=
  s.sent ++ s.client.outbound

/-! ## Operations about no document -/

/-- What an operation does that is about no document. -/
structure Carries (s s' : Session) : Prop where
  name : s'.name = s.name
  stage : Lifecycle.Stage s.sent s.client → Lifecycle.Stage s'.sent s'.client
  rank : Lifecycle.Stage s.sent s.client → s.state.rank ≤ s'.state.rank
  said : ∃ ms, s'.log = s.log ++ ms ∧ ∀ message ∈ ms, Mirror.Quiet message

theorem Carries.trans {s₁ s₂ s₃ : Session} (h : Carries s₁ s₂) (h' : Carries s₂ s₃) :
    Carries s₁ s₃ where
  name := h'.name.trans h.name
  stage hs := h'.stage (h.stage hs)
  rank hs := Nat.le_trans (h.rank hs) (h'.rank (h.stage hs))
  said := by
    obtain ⟨ms, hms, hq⟩ := h.said
    obtain ⟨ms', hms', hq'⟩ := h'.said
    refine ⟨ms ++ ms', by rw [hms', hms, List.append_assoc], fun message hm => ?_⟩
    rcases List.mem_append.1 hm with hm | hm
    · exact hq message hm
    · exact hq' message hm

/-- An operation that says nothing. -/
theorem Carries.of_eq {s s' : Session} (hname : s'.name = s.name) (hclient : s'.client = s.client)
    (hsent : s'.sent = s.sent) : Carries s s' where
  name := hname
  stage hs := by rw [hclient, hsent]; exact hs
  rank _ := Nat.le_of_eq (by rw [state, state, hclient])
  said := ⟨[], by rw [log, log, hclient, hsent, List.append_nil], by simp⟩

theorem Carries.refl (s : Session) : Carries s s :=
  .of_eq rfl rfl rfl

/-- An operation on the client alone. -/
theorem Carries.of_moves {s : Session} {c : Client RequestContext}
    (hm : Lifecycle.Stage s.sent s.client → Lifecycle.Moves s.sent s.client c)
    (hsaid : s.client.QueuesQuiet c) :
    Carries s { s with client := c } where
  name := rfl
  stage hs := (hm hs).stage
  rank hs := (hm hs).rank
  said := by
    obtain ⟨ms, hms, hq⟩ := hsaid
    exact ⟨ms, by simp [log, hms], hq⟩

/-- The messages go on to the connection, and nothing else changes in what was said. -/
theorem flush_log (s : Session) (now : Nat) :
    (s.flush now).2.log = s.log ∧ (s.flush now).2.name = s.name ∧
      (s.flush now).2.state = s.state ∧
      (Lifecycle.Stage s.sent s.client →
        Lifecycle.Stage (s.flush now).2.sent (s.flush now).2.client) := by
  by_cases h : s.client.outbound.isEmpty
  · have he : (s.flush now).2 = s := by simp [flush, Client.takeOutbound, h]
    rw [he]
    exact ⟨rfl, rfl, rfl, id⟩
  · refine ⟨?_, ?_, ?_, fun hs => ?_⟩ <;>
      simp only [flush, Client.takeOutbound, h, Bool.false_eq_true, if_false]
    · simp [log]
    · rfl
    · exact Lifecycle.stage_takeOutbound hs

theorem carries_flush (s : Session) (now : Nat) : Carries s (s.flush now).2 := by
  obtain ⟨hlog, hname, hstate, hstage⟩ := s.flush_log now
  exact ⟨hname, hstage, fun _ => Nat.le_of_eq (by rw [hstate]),
    ⟨[], by rw [hlog, List.append_nil], by simp⟩⟩

end Session

/-! ## Messages of the user -/

namespace Session

/-- One message is queued and nothing else changes in what was said. -/
structure Queues (s s' : Session) (message : Outgoing) : Prop where
  name : s'.name = s.name
  state : s'.state = s.state
  said : s'.log = s.log ++ [message]
  stage : Lifecycle.Stage s.sent s.client → Lifecycle.Stage s'.sent s'.client

theorem queues_client {s : Session} {c : Client RequestContext} {message : Outgoing}
    (hm : Lifecycle.Stage s.sent s.client → Lifecycle.Moves s.sent s.client c)
    (hstate : c.state = s.state) (hout : c.outbound = s.client.outbound ++ [message]) (now : Nat) :
    Queues s ({ s with client := c }.flush now).2 message := by
  obtain ⟨hlog, hname, hstate', hstage⟩ := ({ s with client := c } : Session).flush_log now
  exact ⟨hname, hstate'.trans hstate, by rw [hlog]; simp [log, hout],
    fun hs => hstage (hm hs).stage⟩

theorem notify_cases (s : Session) {method : String} (hm : Lifecycle.IsUser method)
    (params : Json) (now : Nat) :
    (s.state = .running ∧ ∃ s', s.notify method params now = (.ok (), s') ∧
      Queues s s' (.notification method (some params))) ∨
    (s.state ≠ .running ∧ ∃ e, s.notify method params now = (.error e, s)) := by
  by_cases hs : s.client.state = .running
  · have hn := s.client.notify_of_running method (some params) hs
    have hmoves := fun h : Lifecycle.Stage s.sent s.client =>
      hn ▸ Lifecycle.stage_notify h hm (some params)
    exact .inl ⟨hs, _, by simp only [notify, hn], queues_client hmoves rfl rfl now⟩
  · refine .inr ⟨hs, ⟨.sendNotification, s.state⟩, ?_⟩
    simp only [notify, s.client.notify_of_ne method (some params) hs]
    rfl

theorem request_cases (s : Session) {method : String} (hm : Lifecycle.IsUser method)
    (params : Json) (context : Option RequestContext) (now : Nat) :
    (s.state = .running ∧ ∃ id s', s.request method params context now = (.ok id, s') ∧
      Queues s s' (.request id method (some params))) ∨
    (s.state ≠ .running ∧ ∃ e, s.request method params context now = (.error e, s)) := by
  by_cases hs : s.client.state = .running
  · have hn := s.client.request_of_running method (some params) context hs
    have hmoves := fun h : Lifecycle.Stage s.sent s.client =>
      hn ▸ Lifecycle.stage_request h hm (some params) context
    exact .inl ⟨hs, s.client.nextId, _, by simp only [request, hn],
      queues_client hmoves rfl rfl now⟩
  · refine .inr ⟨hs, ⟨.sendRequest, s.state⟩, ?_⟩
    simp only [request, s.client.request_of_ne method (some params) context hs]
    rfl

/-- A message about no document. -/
theorem Queues.carries {s s' : Session} {message : Outgoing} (h : Queues s s' message)
    (hq : Mirror.Quiet message) : Carries s s' where
  name := h.name
  stage := h.stage
  rank _ := Nat.le_of_eq (by rw [h.state])
  said := ⟨[message], h.said, by simpa using hq⟩

end Session

/-! ## Pumping -/

namespace Session

theorem carries_onNotification (s : Session) (visible : String → Bool)
    (note : ServerNotification) : Carries s (s.onNotification visible note).2 := by
  unfold onNotification
  split
  · exact .of_eq rfl rfl rfl
  · split <;> exact .of_eq rfl rfl rfl
  · exact .refl s
  · exact .refl s
  · exact .refl s

theorem carries_onAnswer (s : Session) (id : Int) (method : String) (result : Json)
    (context : RequestContext) : Carries s (s.onAnswer id method result context).2 := by
  unfold onAnswer
  repeat' split
  all_goals exact .of_eq rfl rfl rfl

theorem carries_onEvent (s : Session) (visible : String → Bool)
    (event : ClientEvent RequestContext) : Carries s (s.onEvent visible event).2 := by
  cases event with
  | initialized capabilities => exact .of_eq rfl rfl rfl
  | response id method result context =>
    cases context with
    | none => exact .refl s
    | some context => exact s.carries_onAnswer id method result context
  | error id method e => exact .refl s
  | notification note => exact s.carries_onNotification visible note
  | capabilitiesChanged => exact .of_eq rfl rfl rfl
  | exited => exact .refl s

theorem carries_onEvents (visible : String → Bool) (events : List (ClientEvent RequestContext)) :
    ∀ s : Session, Carries s (s.onEvents visible events).2 := by
  induction events with
  | nil => exact fun s => .refl s
  | cons event events ih =>
    intro s
    exact (s.carries_onEvent visible event).trans (ih _)

theorem carries_onBody (s : Session) (visible : String → Bool) (body : List UInt8) :
    Carries s (s.onBody visible body).2 := by
  have hc : Carries s { s with client := (s.client.receive body).2 } :=
    .of_moves (fun hs => Lifecycle.stage_receive hs body) (s.client.receive_quiet body)
  exact hc.trans (carries_onEvents visible _ _)

theorem carries_connection (s : Session) (connection : Connection) :
    Carries s { s with connection := connection } :=
  .of_eq rfl rfl rfl

theorem carries_exit (s : Session) : Carries s { s with client := s.client.exit } :=
  .of_moves Lifecycle.stage_exit s.client.exit_quiet

theorem carries_takeIn (visible : String → Bool) (most : Nat) :
    ∀ s : Session, Carries s (takeIn visible most s).2.2 := by
  induction most with
  | zero => exact fun s => .refl s
  | succ most ih =>
    intro s
    unfold takeIn
    split
    · exact .refl s
    · rename_i connection _
      exact (s.carries_connection connection).trans (carries_exit _)
    · rename_i f connection _
      exact ((s.carries_connection connection).trans (carries_onBody _ visible f.body)).trans (ih _)

theorem carries_tearDown (s : Session) (now : Nat) : Carries s (s.tearDown now) :=
  (s.carries_flush now).trans (.of_eq rfl rfl rfl)

/-- A pump is about no document, whatever it finds in the connection. -/
theorem carries_pump (s : Session) (visible : String → Bool) (now : Nat) :
    Carries s (s.pump visible now).2.2 := by
  unfold pump
  split
  · exact .refl s
  · have h := (carries_takeIn visible s.connection.inbound.length s).trans
      (carries_flush _ now)
    simp only
    split
    · exact h.trans (carries_tearDown _ now)
    · split
      · exact h
      · exact h.trans (.of_eq rfl rfl rfl)

/-! ## The other operations -/

theorem carries_shutdown (s : Session) (now : Nat) : Carries s (s.shutdown now) :=
  (Carries.of_moves (fun hs => (Lifecycle.stage_shutdown hs).1) s.client.shutdown_quiet).trans
    (carries_flush _ now)

theorem carries_kill (s : Session) (now : Nat) : Carries s (s.kill now) := by
  unfold kill
  split
  · exact .refl s
  · exact s.carries_exit.trans (carries_tearDown _ now)

theorem carries_shown (s : Session) (uri : String) : Carries s (s.shown uri).2 := by
  unfold shown
  split <;> exact .of_eq rfl rfl rfl

theorem carries_workspaceSymbols (s : Session) (query : String) (now : Nat) :
    Carries s (s.workspaceSymbols query now).2 := by
  unfold workspaceSymbols
  simp only
  split
  · exact .refl s
  · have hm : Lifecycle.IsUser Method.workspaceSymbol := by decide
    rcases s.request_cases hm (Params.workspaceSymbols query) none now with
      ⟨-, id, s', he, hqueued⟩ | ⟨-, e, he⟩
    · have hq : Mirror.Quiet (.request id Method.workspaceSymbol
          (some (Params.workspaceSymbols query))) :=
        show Method.workspaceSymbol ∉ Mirror.documentRequests by decide
      rw [he]
      exact hqueued.carries hq
    · rw [he]
      exact .refl s

end Session

end LanguageClient
