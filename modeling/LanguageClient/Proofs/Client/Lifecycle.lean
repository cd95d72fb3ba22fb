import LanguageClient.Proofs.Client.Run

/-!
# The order of a connection

A connection opens with `initialize`, goes on to `initialized`, then says
what its user wants, then `shutdown`; it may break off at any point of this
with `exit`, behind which nothing comes. The state of a client is the place
it has reached in that order (`Opening`), and what waits for an answer fits
the state (`Waits`); both together are the invariant `Stage`.

* `stage_connect` to `stage_receive`: what each operation does to a `Stage`.
* `run_lifecycle`: what holds of every run.

A `Stage` speaks of the messages queued before those that wait in the
client, so it serves any caller that takes the messages of a client away.
-/
namespace LanguageClient

def Outgoing.method? : Outgoing → Option String
  | .request _ method _ => some method
  | .notification method _ => some method
  | .reply _ _ => none

namespace ClientState

/-- How far a state is from the start. -/
def rank : ClientState → Nat
  | uninitialized => 0
  | initializing => 1
  | running => 2
  | shuttingDown => 3
  | exited => 4

end ClientState

namespace Lifecycle

variable {Context : Type}

def methods (log : List Outgoing) : List String :=
  log.filterMap Outgoing.method?

/-- Whether a method is none of the four of the lifecycle. -/
def IsUser (method : String) : Prop :=
  method ≠ Method.start ∧ method ≠ Method.started ∧ method ≠ Method.shutdown ∧
    method ≠ Method.exit

instance (method : String) : Decidable (IsUser method) :=
  inferInstanceAs (Decidable (_ ∧ _))

/-- What a connection may say as long as it does not break off. -/
def IsOpening (w : List String) : Prop :=
  w = [] ∨ w = [Method.start] ∨
    ∃ us, (∀ m ∈ us, IsUser m) ∧
      (w = Method.start :: Method.started :: us ∨
        w = Method.start :: Method.started :: (us ++ [Method.shutdown]))

/-- What a connection may say. -/
def IsWord (w : List String) : Prop :=
  IsOpening w ∨ ∃ v, IsOpening v ∧ w = v ++ [Method.exit]

/-- The state that what was said puts a client in. -/
def stateOf (w : List String) : ClientState :=
  if Method.exit ∈ w then .exited
  else if Method.shutdown ∈ w then .shuttingDown
  else if Method.started ∈ w then .running
  else if Method.start ∈ w then .initializing
  else .uninitialized

/-- What was said by a client that has not exited, by its state. -/
def Opening : ClientState → List String → Prop
  | .uninitialized, w => w = []
  | .initializing, w => w = [Method.start]
  | .running, w => ∃ us, (∀ m ∈ us, IsUser m) ∧ w = Method.start :: Method.started :: us
  | .shuttingDown, w =>
    ∃ us, (∀ m ∈ us, IsUser m) ∧
      w = Method.start :: Method.started :: (us ++ [Method.shutdown])
  | .exited, _ => False

/-- What waits for an answer, by the state. -/
def Waits : ClientState → List (PendingRequest Context) → Prop
  | .uninitialized, ps => ps = []
  | .initializing, ps => ∃ id, ps = [⟨id, Method.start, none⟩]
  | .running, ps => ∀ p ∈ ps, IsUser p.method
  | .shuttingDown, ps => ∀ p ∈ ps, p.method = Method.shutdown ∨ IsUser p.method
  | .exited, ps => ps = []

/-- The client has the state that what was said puts it in, where `before` was taken away before
what it still holds. -/
inductive Stage (before : List Outgoing) (c : Client Context) : Prop
  | live (word : Opening c.state (methods (before ++ c.outbound)))
      (waits : Waits c.state c.pending)
      (deferred : c.state = .running → c.deferredShutdown = false)
  | gone (state : c.state = .exited) (pending : c.pending = [])
      (ends : ∃ log s, before ++ c.outbound = log ++ [.notification Method.exit none] ∧
        Opening s (methods log))

/-- A shutdown was asked for: it is put off or under way. -/
def Stopping (c : Client Context) : Prop :=
  c.state ≠ .running ∧
    (c.deferredShutdown = true ∨ c.state = .shuttingDown ∨ c.state = .exited)

/-- What every operation of a client does that leaves `before` alone: it keeps the stage, does not
step back, is silent after the exit, and lets a shutdown that was asked for stand. -/
structure Moves (before : List Outgoing) (c c' : Client Context) : Prop where
  stage : Stage before c'
  rank : c.state.rank ≤ c'.state.rank
  silent : c.state = .exited → c'.state = .exited ∧ c'.outbound = c.outbound
  stopping : Stopping c → Stopping c'

/-! ## Words -/

theorem exit_distinct : Method.exit ≠ Method.start ∧ Method.exit ≠ Method.started ∧
    Method.exit ≠ Method.shutdown := by decide

theorem shutdown_distinct : Method.shutdown ≠ Method.start ∧ Method.shutdown ≠ Method.started := by
  decide

@[simp] theorem methods_append (a b : List Outgoing) :
    methods (a ++ b) = methods a ++ methods b :=
  List.filterMap_append

theorem methods_request (id : Int) (method : String) (params : Option Json) :
    methods [.request id method params] = [method] := rfl

theorem methods_notification (method : String) (params : Option Json) :
    methods [.notification method params] = [method] := rfl

theorem methods_reply (id : RequestId) (outcome : Except ResponseError Json) :
    methods [.reply id outcome] = [] := rfl

theorem opening_isOpening {s : ClientState} {w : List String} (h : Opening s w) :
    IsOpening w := by
  cases s with
  | uninitialized => exact .inl h
  | initializing => exact .inr (.inl h)
  | running => obtain ⟨us, hu, h⟩ := h; exact .inr (.inr ⟨us, hu, .inl h⟩)
  | shuttingDown => obtain ⟨us, hu, h⟩ := h; exact .inr (.inr ⟨us, hu, .inr h⟩)
  | exited => exact h.elim

/-- None of the user's methods is one of the lifecycle. -/
theorem not_mem_users {us : List String} (hu : ∀ m ∈ us, IsUser m) :
    Method.start ∉ us ∧ Method.started ∉ us ∧ Method.shutdown ∉ us ∧ Method.exit ∉ us :=
  ⟨fun h => (hu _ h).1 rfl, fun h => (hu _ h).2.1 rfl, fun h => (hu _ h).2.2.1 rfl,
    fun h => (hu _ h).2.2.2 rfl⟩

theorem exit_not_mem_opening {s : ClientState} {w : List String} (h : Opening s w) :
    Method.exit ∉ w := by
  cases s with
  | uninitialized => subst h; simp
  | initializing => subst h; decide
  | running =>
    obtain ⟨us, hu, rfl⟩ := h
    simp [(not_mem_users hu).2.2.2, exit_distinct]
  | shuttingDown =>
    obtain ⟨us, hu, rfl⟩ := h
    simp [(not_mem_users hu).2.2.2, exit_distinct]
  | exited => exact h.elim

theorem stateOf_opening {s : ClientState} {w : List String} (h : Opening s w) :
    stateOf w = s := by
  have he := exit_not_mem_opening h
  cases s with
  | uninitialized => subst h; rfl
  | initializing => subst h; decide
  | running =>
    obtain ⟨us, hu, rfl⟩ := h
    have hd : Method.shutdown ∉ Method.start :: Method.started :: us := by
      simp [(not_mem_users hu).2.2.1, shutdown_distinct]
    simp [stateOf, he, hd]
  | shuttingDown => obtain ⟨us, hu, rfl⟩ := h; simp [stateOf, he]
  | exited => exact h.elim

/-! ## Operations -/

variable {before : List Outgoing} {c : Client Context}

theorem Stage.live_of_ne (h : Stage before c) (hs : c.state ≠ .exited) :
    Opening c.state (methods (before ++ c.outbound)) ∧ Waits c.state c.pending ∧
      (c.state = .running → c.deferredShutdown = false) := by
  cases h with
  | live word waits deferred => exact ⟨word, waits, deferred⟩
  | gone state _ _ => exact absurd state hs

theorem Moves.refl (h : Stage before c) : Moves before c c :=
  ⟨h, Nat.le_refl _, fun hs => ⟨hs, rfl⟩, id⟩

theorem Moves.trans {c₁ c₂ c₃ : Client Context} (h : Moves before c₁ c₂)
    (h' : Moves before c₂ c₃) : Moves before c₁ c₃ where
  stage := h'.stage
  rank := Nat.le_trans h.rank h'.rank
  silent hs := by
    obtain ⟨h1, h2⟩ := h.silent hs
    obtain ⟨h3, h4⟩ := h'.silent h1
    exact ⟨h3, h4.trans h2⟩
  stopping hs := h'.stopping (h.stopping hs)

theorem stage_new (options : ClientOptions) : Stage [] (Client.new options : Client Context) :=
  .live rfl rfl (fun h => by cases h)

theorem stage_connect (h : Stage before c) (processId : Nat) :
    Moves before c (c.connect processId).2 := by
  by_cases hs : c.state = .uninitialized
  · obtain ⟨word, waits, -⟩ := h.live_of_ne (by simp [hs])
    rw [hs] at word waits
    rw [Client.connect_of_uninitialized c processId hs]
    refine ⟨.live ?_ ⟨c.nextId, ?_⟩ (fun h => by cases h), ?_, ?_, ?_⟩
    · rw [← List.append_assoc, methods_append, show methods (before ++ c.outbound) = [] from word,
        methods_request]
      rfl
    · rw [show c.pending = [] from waits]; rfl
    · simp [hs, ClientState.rank]
    · simp [hs]
    · rintro ⟨-, hd⟩
      exact ⟨by simp, by simpa [hs] using hd⟩
  · rw [Client.connect_of_ne c processId hs]
    exact .refl h

theorem stage_request (h : Stage before c) {method : String} (hm : IsUser method)
    (params : Option Json) (context : Option Context) :
    Moves before c (c.request method params context).2 := by
  by_cases hs : c.state = .running
  · obtain ⟨word, waits, deferred⟩ := h.live_of_ne (by simp [hs])
    rw [hs] at word waits
    obtain ⟨us, hu, hw⟩ := word
    rw [Client.request_of_running c method params context hs]
    refine ⟨.live ?_ ?_ deferred, Nat.le_refl _, ?_, ?_⟩
    · rw [hs]
      refine ⟨us ++ [method], ?_, ?_⟩
      · simpa [or_imp, forall_and] using ⟨hu, hm⟩
      · rw [← List.append_assoc, methods_append, hw, methods_request]; rfl
    · rw [hs]
      simpa [Waits, or_imp, forall_and] using ⟨waits, hm⟩
    · simp [hs]
    · exact fun hd => absurd hs hd.1
  · rw [Client.request_of_ne c method params context hs]
    exact .refl h

theorem stage_notify (h : Stage before c) {method : String} (hm : IsUser method)
    (params : Option Json) : Moves before c (c.notify method params).2 := by
  by_cases hs : c.state = .running
  · obtain ⟨word, waits, deferred⟩ := h.live_of_ne (by simp [hs])
    rw [hs] at word
    obtain ⟨us, hu, hw⟩ := word
    rw [Client.notify_of_running c method params hs]
    refine ⟨.live ?_ waits deferred, Nat.le_refl _, ?_, ?_⟩
    · rw [hs]
      refine ⟨us ++ [method], ?_, ?_⟩
      · simpa [or_imp, forall_and] using ⟨hu, hm⟩
      · rw [← List.append_assoc, methods_append, hw, methods_notification]; rfl
    · simp [hs]
    · exact fun hd => absurd hs hd.1
  · rw [Client.notify_of_ne c method params hs]
    exact .refl h

/-- Queueing `shutdown` while running. -/
theorem stage_stopping (h : Stage before c) (hs : c.state = .running) :
    Moves before c c.stopping ∧ Stopping c.stopping := by
  obtain ⟨word, waits, -⟩ := h.live_of_ne (by simp [hs])
  rw [hs] at word waits
  obtain ⟨us, hu, hw⟩ := word
  have hstop : Stopping c.stopping := ⟨by simp [Client.stopping], by simp [Client.stopping]⟩
  refine ⟨⟨.live ⟨us, hu, ?_⟩ ?_ (by simp [Client.stopping]), ?_, ?_, fun _ => hstop⟩, hstop⟩
  · rw [Client.stopping, ← List.append_assoc, methods_append, hw, methods_request]; rfl
  · intro p hp
    rcases List.mem_append.1 hp with hp | hp
    · exact .inr (waits p hp)
    · left; rw [List.mem_singleton.1 hp]
  · simp [hs, Client.stopping, ClientState.rank]
  · simp [hs]

theorem stage_shutdown (h : Stage before c) :
    Moves before c c.shutdown ∧ Stopping c.shutdown := by
  rcases c.shutdown_cases with ⟨hs, he⟩ | ⟨hs, he⟩ | ⟨hs, he⟩
  · have hx : c.state ≠ .exited := by rintro hx; simp [hx] at hs
    have hr : c.state ≠ .running := by rintro hx; simp [hx] at hs
    obtain ⟨word, waits, -⟩ := h.live_of_ne hx
    rw [he]
    exact ⟨⟨.live word waits fun h => absurd h hr, Nat.le_refl _, fun h => absurd h hx,
      fun _ => ⟨hr, .inl rfl⟩⟩, hr, .inl rfl⟩
  · rw [he]
    exact stage_stopping h hs
  · rw [he]
    exact ⟨.refl h, by rcases hs with hs | hs <;> simp [hs], .inr hs⟩

/-- Breaking off asks nothing of the pending requests. -/
theorem exit_moves (word : Opening c.state (methods (before ++ c.outbound))) :
    Moves before c c.exit := by
  have hs : c.state ≠ .exited := by rintro hs; rw [hs] at word; exact word
  rw [Client.exit_of_ne c hs]
  refine ⟨.gone rfl rfl ⟨before ++ c.outbound, c.state, by simp, word⟩, ?_, ?_, ?_⟩
  · cases c.state <;> simp [ClientState.rank]
  · exact fun h => absurd h hs
  · exact fun _ => ⟨by simp, by simp⟩

theorem stage_exit (h : Stage before c) : Moves before c c.exit := by
  by_cases hs : c.state = .exited
  · rw [Client.exit_of_exited c hs]
    exact .refl h
  · exact exit_moves (h.live_of_ne hs).1

theorem stage_takeOutbound (h : Stage before c) :
    Stage (before ++ c.outbound) c.takeOutbound.2 := by
  cases h with
  | live word waits deferred =>
    exact .live (by simpa [Client.takeOutbound] using word) waits deferred
  | gone state pending ends =>
    exact .gone state pending (by simpa [Client.takeOutbound] using ends)

/-! ## Taking bodies in -/

/-- A request that waits was sent by a client that has not exited; the answer to `initialize` is
waited for alone, and only while initializing. -/
theorem waiting_state {p : PendingRequest Context} (h : Stage before c) (hp : p ∈ c.pending) :
    c.state ≠ .exited ∧
      (p.method = Method.start → c.state = .initializing ∧ (c.without p).pending = []) := by
  cases h with
  | gone state pending _ => simp [pending] at hp
  | live word waits deferred =>
    cases hs : c.state with
    | uninitialized => rw [hs] at waits; rw [show c.pending = [] from waits] at hp; cases hp
    | initializing =>
      rw [hs] at waits
      obtain ⟨id, hw⟩ := waits
      rw [hw, List.mem_singleton] at hp
      exact ⟨by simp, fun _ => ⟨rfl, by simp [Client.without, hw, hp]⟩⟩
    | running =>
      rw [hs] at waits
      exact ⟨by simp, fun hm => absurd hm (waits p hp).1⟩
    | shuttingDown =>
      rw [hs] at waits
      refine ⟨by simp, fun hm => ?_⟩
      rcases waits p hp with hd | hu
      · exact absurd (hd.symm.trans hm) shutdown_distinct.1
      · exact absurd hm hu.1
    | exited => rw [hs] at word; exact word.elim

/-- The answer to `initialize` ends the handshake. -/
theorem stage_greeted (result : Json)
    (word : Opening .initializing (methods (before ++ c.outbound))) (hs : c.state = .initializing)
    (hp : c.pending = []) (hd : c.deferredShutdown = false) :
    Moves before c (c.greeted result) := by
  refine ⟨.live ⟨[], by simp, ?_⟩ ?_ fun _ => hd, ?_, ?_, ?_⟩
  · rw [Client.greeted, ← List.append_assoc, methods_append,
      show methods (before ++ c.outbound) = [Method.start] from word, methods_notification]
    rfl
  · intro p h; simp [Client.greeted, hp] at h
  · simp [hs, Client.greeted, ClientState.rank]
  · simp [hs]
  · rintro ⟨-, h⟩; simp [hs, hd] at h

theorem stage_finishHandshake (result : Json)
    (word : Opening .initializing (methods (before ++ c.outbound))) (hs : c.state = .initializing)
    (hp : c.pending = []) : Moves before c (c.finishHandshake result).2 := by
  obtain ⟨-, ⟨hd, he⟩ | ⟨hd, he⟩⟩ := c.finishHandshake_cases result
  · rw [he]
    exact stage_greeted result word hs hp hd
  · rw [he]
    -- The flag is cleared before `shutdown` goes out, so the greeting is that of a client
    -- without it.
    have m := stage_greeted (c := { c with deferredShutdown := false }) result word hs hp rfl
    obtain ⟨m', hstop⟩ := stage_stopping m.stage rfl
    exact ⟨m'.stage, Nat.le_trans m.rank m'.rank, fun h => by simp [hs] at h, fun _ => hstop⟩

theorem stage_settle {p : PendingRequest Context} (h : Stage before c) (hp : p ∈ c.pending)
    (outcome : Except ResponseError Json) :
    Moves before c ((c.without p).settle p outcome).2 := by
  obtain ⟨hx, hstart⟩ := waiting_state h hp
  obtain ⟨word, waits, deferred⟩ := h.live_of_ne hx
  rcases (c.without p).settle_cases p outcome with
    ⟨result, hm, -, he⟩ | ⟨e, hm, -, he⟩ | ⟨hm, he⟩ | ⟨result, hm, hm', -, he⟩ | ⟨e, hm, hm', -, he⟩
  · obtain ⟨hs, hpend⟩ := hstart hm
    rw [hs] at word
    have m := stage_finishHandshake (c := c.without p) result word hs hpend
    rw [he]
    exact ⟨m.stage, m.rank, m.silent, m.stopping⟩
  · have m := exit_moves (c := c.without p) word
    rw [he]
    exact ⟨m.stage, m.rank, m.silent, m.stopping⟩
  · have m := exit_moves (c := c.without p) word
    rw [he]
    exact ⟨m.stage, m.rank, m.silent, m.stopping⟩
  all_goals
    rw [he]
    refine ⟨.live word ?_ deferred, Nat.le_refl _, fun h => absurd h hx, id⟩
    have hsub : ∀ q ∈ (c.without p).pending, q ∈ c.pending := fun q hq =>
      (List.mem_filter.1 hq).1
    show Waits c.state (c.without p).pending
    cases hs : c.state with
    | uninitialized => rw [hs] at waits; rw [show c.pending = [] from waits] at hp; cases hp
    | initializing =>
      rw [hs] at waits
      obtain ⟨id, hw⟩ := waits
      rw [hw, List.mem_singleton] at hp
      exact absurd (by rw [hp]) hm
    | running => rw [hs] at waits; exact fun q hq => waits q (hsub q hq)
    | shuttingDown => rw [hs] at waits; exact fun q hq => waits q (hsub q hq)
    | exited => exact absurd hs hx

theorem stage_onServerRequest (h : Stage before c) (id : RequestId) (r : ServerRequest) :
    Moves before c (c.onServerRequest id r).2 := by
  by_cases hs : c.state = .exited
  · rw [Client.onServerRequest_of_exited c id r hs]
    cases h with
    | live word _ _ => rw [hs] at word; exact word.elim
    | gone state pending ends =>
      exact ⟨.gone state pending ends, Nat.le_refl _, fun _ => ⟨hs, rfl⟩, fun hd => hd⟩
  · obtain ⟨word, waits, deferred⟩ := h.live_of_ne hs
    rw [Client.onServerRequest_of_ne c id r hs]
    refine ⟨.live ?_ waits deferred, Nat.le_refl _, fun h => absurd h hs, fun hd => hd⟩
    rw [← List.append_assoc, methods_append, methods_reply, List.append_nil]
    exact word

theorem stage_receive (h : Stage before c) (body : List UInt8) :
    Moves before c (c.receive body).2 := by
  rcases c.receive_cases body with ⟨id, outcome, -, he⟩ | ⟨id, r, -, he⟩ | ⟨-, he, -⟩
  · rw [he]
    cases hp : id.number?.bind c.pending? with
    | none => rw [Client.onResponse_of_none outcome hp]; exact .refl h
    | some p =>
      obtain ⟨n, -, hn⟩ := Option.bind_eq_some_iff.1 hp
      rw [Client.onResponse_of_some outcome hp]
      exact stage_settle h (Client.id_of_pending? hn).2 outcome
  · rw [he]
    exact stage_onServerRequest h id r
  · rw [he]
    exact .refl h

/-! ## Runs -/

/-- Whether a call sends nothing of the lifecycle by hand. -/
def IsUserCall : ClientCall Context → Prop
  | .request method _ _ => IsUser method
  | .notify method _ => IsUser method
  | _ => True

/-- `Moves` for a trace, which knows all that was sent. -/
structure TraceMoves (t t' : ClientTrace Context) : Prop where
  stage : Stage t'.taken t'.client
  rank : t.client.state.rank ≤ t'.client.state.rank
  silent : t.client.state = .exited → t'.client.state = .exited ∧ t'.sent = t.sent
  stopping : Stopping t.client → Stopping t'.client

theorem TraceMoves.of_moves {t t' : ClientTrace Context} (m : Moves t.taken t.client t'.client)
    (ht : t'.taken = t.taken) : TraceMoves t t' where
  stage := ht ▸ m.stage
  rank := m.rank
  silent hs := ⟨(m.silent hs).1, by rw [ClientTrace.sent, ht, (m.silent hs).2]; rfl⟩
  stopping := m.stopping

theorem TraceMoves.trans {t₁ t₂ t₃ : ClientTrace Context} (h : TraceMoves t₁ t₂)
    (h' : TraceMoves t₂ t₃) : TraceMoves t₁ t₃ where
  stage := h'.stage
  rank := Nat.le_trans h.rank h'.rank
  silent hs := by
    obtain ⟨h1, h2⟩ := h.silent hs
    obtain ⟨h3, h4⟩ := h'.silent h1
    exact ⟨h3, h4.trans h2⟩
  stopping hs := h'.stopping (h.stopping hs)

theorem step_moves {t : ClientTrace Context} (h : Stage t.taken t.client)
    (call : ClientCall Context) (hc : IsUserCall call) : TraceMoves t (t.step call) := by
  cases call with
  | connect processId => exact .of_moves (stage_connect h processId) rfl
  | request method params context =>
    have m := stage_request h hc params context
    simp only [ClientTrace.step]
    split <;> rename_i heq <;> rw [heq] at m <;> exact .of_moves m rfl
  | notify method params => exact .of_moves (stage_notify h hc params) rfl
  | shutdown => exact .of_moves (stage_shutdown h).1 rfl
  | exit => exact .of_moves (stage_exit h) rfl
  | takeOutbound =>
    exact ⟨stage_takeOutbound h, Nat.le_refl _,
      fun hs => ⟨hs, by simp [ClientTrace.sent, ClientTrace.step, Client.takeOutbound]⟩, id⟩
  | receive body => exact .of_moves (stage_receive h body) rfl

theorem run_moves {t : ClientTrace Context} (h : Stage t.taken t.client)
    (calls : List (ClientCall Context)) (hu : ∀ call ∈ calls, IsUserCall call) :
    TraceMoves t (t.run calls) := by
  refine ClientTrace.run_invariant (TraceMoves t) IsUserCall ?_ calls t
    ⟨h, Nat.le_refl _, fun hs => ⟨hs, rfl⟩, id⟩ hu
  exact fun u call hc m => m.trans (step_moves m.stage call hc)

/-- Once a shutdown was asked for it stands, whatever is called before and after. -/
theorem run_stopping {t : ClientTrace Context} (h : Stage t.taken t.client)
    (calls : List (ClientCall Context)) (hu : ∀ call ∈ calls, IsUserCall call)
    (hs : .shutdown ∈ calls) : Stopping (t.run calls).client := by
  obtain ⟨pre, post, rfl⟩ := List.append_of_mem hs
  have hpre := run_moves h pre fun c hc => hu c (by simp [hc])
  have hstop := stage_shutdown hpre.stage
  rw [ClientTrace.run_append]
  refine (run_moves (t := (t.run pre).step .shutdown) hstop.1.stage post fun c hc =>
    hu c (by simp [hc])).stopping hstop.2

/-- What a stage says of all that was sent. -/
theorem Stage.word {before : List Outgoing} {c : Client Context} (h : Stage before c) :
    IsWord (methods (before ++ c.outbound)) ∧
      c.state = stateOf (methods (before ++ c.outbound)) := by
  cases h with
  | live word _ _ => exact ⟨.inl (opening_isOpening word), (stateOf_opening word).symm⟩
  | gone state _ ends =>
    obtain ⟨log, s, he, word⟩ := ends
    rw [he, methods_append, methods_notification, state]
    exact ⟨.inr ⟨_, opening_isOpening word, rfl⟩, by simp [stateOf]⟩

theorem mem_methods_of_exit (params : Option Json) {log : List Outgoing}
    (h : .notification Method.exit params ∈ log) : Method.exit ∈ methods log :=
  List.mem_filterMap.2 ⟨_, h, rfl⟩

/-- Nothing was sent behind `exit`. -/
theorem Stage.exit_last {before : List Outgoing} {c : Client Context} (h : Stage before c)
    {log rest : List Outgoing} {params : Option Json}
    (he : before ++ c.outbound = log ++ .notification Method.exit params :: rest) : rest = [] := by
  cases h with
  | live word _ _ =>
    exact absurd (mem_methods_of_exit params (by rw [he]; simp)) (exit_not_mem_opening word)
  | gone _ _ ends =>
    obtain ⟨log', s, he', word⟩ := ends
    rw [he'] at he
    rcases List.eq_nil_or_concat rest with rfl | ⟨init, last, rfl⟩
    · rfl
    · have he'' : log' ++ [.notification Method.exit none] =
          (log ++ .notification Method.exit params :: init) ++ [last] := by
        rw [he]; simp
      have hl := (List.append_inj' he'' rfl).1
      exact absurd (mem_methods_of_exit params (by rw [hl]; simp)) (exit_not_mem_opening word)

/-- **The order of a connection.** Whatever is called and taken in, what a client has said is a
word of the order and its state is the place reached in it; nothing at all comes behind `exit`,
nothing waits then, a shutdown that was asked for is never followed by running, and no call leads
back. -/
theorem run_lifecycle (options : ClientOptions) (calls : List (ClientCall Context))
    (hu : ∀ call ∈ calls, IsUserCall call) :
    let t := (ClientTrace.start options).run calls
    IsWord (methods t.sent) ∧ t.client.state = stateOf (methods t.sent) ∧
      (∀ log params rest, t.sent = log ++ .notification Method.exit params :: rest → rest = []) ∧
      (t.client.state = .exited → t.client.pending = []) ∧
      (.shutdown ∈ calls → t.client.state ≠ .running) ∧
      ∀ more, (∀ call ∈ more, IsUserCall call) →
        t.client.state.rank ≤ (t.run more).client.state.rank ∧
          (t.client.state = .exited →
            (t.run more).client.state = .exited ∧ (t.run more).sent = t.sent) := by
  intro t
  have m := run_moves (t := (.start options : ClientTrace Context)) (stage_new options) calls hu
  refine ⟨m.stage.word.1, m.stage.word.2, fun log params rest => m.stage.exit_last, ?_,
    fun hs => (run_stopping (t := .start options) (stage_new options) calls hu hs).1, ?_⟩
  · intro hs
    cases m.stage with
    | live word _ _ => rw [hs] at word; exact word.elim
    | gone _ pending _ => exact pending
  · intro more hmore
    have m' := run_moves m.stage more hmore
    exact ⟨m'.rank, m'.silent⟩

/-- A shutdown put off before the handshake, a handshake answered twice, a request too late. -/
def putOff : List (ClientCall Unit) :=
  let answer (n : Int) : List UInt8 := (Outgoing.reply (.number n) (.ok (.obj []))).body
  [.shutdown, .connect 7, .receive (answer 1), .takeOutbound, .receive (answer 1),
    .receive (answer 2), .request Method.hover none none]

theorem run_lifecycle_putOff :
    (∀ call ∈ putOff, IsUserCall call) ∧
      methods ((ClientTrace.start default).run putOff).sent =
        [Method.start, Method.started, Method.shutdown, Method.exit] ∧
      IsWord (methods ((ClientTrace.start default).run putOff).sent) ∧
      ((ClientTrace.start default).run putOff).client.state = .exited ∧
      ((ClientTrace.start default).run putOff).client.state ≠ .running := by
  have hu : ∀ call ∈ putOff, IsUserCall call := by
    simp only [putOff, List.forall_mem_cons, IsUserCall, IsUser]
    exact ⟨trivial, trivial, trivial, trivial, trivial, trivial, by decide, by simp⟩
  have h := run_lifecycle default putOff hu
  exact ⟨hu, by decide +kernel, h.1, by decide +kernel, h.2.2.2.2.1 (by simp [putOff])⟩

end Lifecycle

end LanguageClient
