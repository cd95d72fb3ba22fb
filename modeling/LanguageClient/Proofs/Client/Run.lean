import LanguageClient.Client

/-!
# Runs of a client

A run is a list of calls on a new client, in any order and with any bodies
taken in. `ClientTrace.step` makes one call and keeps what came of it beside
the client: the messages the caller has taken, the requests it was given an
id for, the events, and the ids for which a response came in after they were
issued.

The lemmas on the operations of `Client` say once what each of them does to
the state, the queue and the pending requests; no later proof opens them.
-/
namespace LanguageClient

variable {Context : Type}

/-! ## What the operations do -/

namespace Client

theorem connect_of_uninitialized (c : Client Context) (processId : Nat)
    (h : c.state = .uninitialized) :
    c.connect processId = (.ok c.nextId,
      { c with
        outbound := c.outbound ++ [.request c.nextId Method.start
          (some (Params.handshake processId c.options.rootUri c.options.initializationOptions))]
        nextId := c.nextId + 1
        pending := c.pending ++ [⟨c.nextId, Method.start, none⟩]
        state := .initializing }) := by
  simp [connect, h, enqueueRequest, enqueue]

theorem connect_of_ne (c : Client Context) (processId : Nat) (h : c.state ≠ .uninitialized) :
    c.connect processId = (.error ⟨.connect, c.state⟩, c) := by
  simp [connect, h]

theorem request_of_running (c : Client Context) (method : String) (params : Option Json)
    (context : Option Context) (h : c.state = .running) :
    c.request method params context = (.ok c.nextId,
      { c with
        outbound := c.outbound ++ [.request c.nextId method params]
        nextId := c.nextId + 1
        pending := c.pending ++ [⟨c.nextId, method, context⟩] }) := by
  simp [request, h, enqueueRequest, enqueue]

theorem request_of_ne (c : Client Context) (method : String) (params : Option Json)
    (context : Option Context) (h : c.state ≠ .running) :
    c.request method params context = (.error ⟨.sendRequest, c.state⟩, c) := by
  simp [request, h]

theorem notify_of_running (c : Client Context) (method : String) (params : Option Json)
    (h : c.state = .running) :
    c.notify method params =
      (.ok (), { c with outbound := c.outbound ++ [.notification method params] }) := by
  simp [notify, h, enqueue]

theorem notify_of_ne (c : Client Context) (method : String) (params : Option Json)
    (h : c.state ≠ .running) :
    c.notify method params = (.error ⟨.sendNotification, c.state⟩, c) := by
  simp [notify, h]

/-- The client once `shutdown` is queued. -/
def stopping (c : Client Context) : Client Context :=
  { c with
    outbound := c.outbound ++ [.request c.nextId Method.shutdown none]
    nextId := c.nextId + 1
    pending := c.pending ++ [⟨c.nextId, Method.shutdown, none⟩]
    state := .shuttingDown }

/-- A shutdown is put off, sent, or changes nothing, by the state it is asked for in. -/
theorem shutdown_cases (c : Client Context) :
    ((c.state = .uninitialized ∨ c.state = .initializing) ∧
      c.shutdown = { c with deferredShutdown := true }) ∨
    (c.state = .running ∧ c.shutdown = c.stopping) ∨
    ((c.state = .shuttingDown ∨ c.state = .exited) ∧ c.shutdown = c) := by
  unfold shutdown
  split <;> simp_all [enqueueRequest, enqueue, stopping]

theorem exit_of_exited (c : Client Context) (h : c.state = .exited) : c.exit = c := by
  simp [exit, h]

theorem exit_of_ne (c : Client Context) (h : c.state ≠ .exited) :
    c.exit =
      { c with
        outbound := c.outbound ++ [.notification Method.exit none]
        state := .exited
        deferredShutdown := false
        pending := [] } := by
  simp [exit, h, enqueue]

/-- The client once the handshake is done and before a shutdown that was put off. -/
def greeted (c : Client Context) (result : Json) : Client Context :=
  { c with
    capabilities := (result.get? "capabilities").getD .null
    registry :=
      Registry.ofHandshake ((result.get? "capabilities").getD .null) c.options.languageIds
    outbound := c.outbound ++ [.notification Method.started (some (.obj []))]
    state := .running }

/-- The end of the handshake leaves the client running, or shutting down if that was put off. -/
theorem finishHandshake_cases (c : Client Context) (result : Json) :
    (c.finishHandshake result).1 =
        [.initialized ((result.get? "capabilities").getD .null)] ∧
      ((c.deferredShutdown = false ∧ (c.finishHandshake result).2 = c.greeted result) ∨
        (c.deferredShutdown = true ∧ (c.finishHandshake result).2 =
          { c.greeted result with deferredShutdown := false }.stopping)) := by
  refine ⟨rfl, ?_⟩
  cases h : c.deferredShutdown
  · exact .inl ⟨rfl, by simp [finishHandshake, h, enqueue, greeted]⟩
  · exact .inr ⟨rfl, by simp [finishHandshake, h, enqueue, greeted, shutdown, enqueueRequest,
      stopping]⟩

theorem onServerRequest_of_exited (c : Client Context) (id : RequestId) (r : ServerRequest)
    (h : c.state = .exited) :
    c.onServerRequest id r =
      (requestEvents r, { c with registry := registryAfter c.registry r }) := by
  simp [onServerRequest, h]

theorem onServerRequest_of_ne (c : Client Context) (id : RequestId) (r : ServerRequest)
    (h : c.state ≠ .exited) :
    c.onServerRequest id r =
      (requestEvents r,
        { c with
          registry := registryAfter c.registry r
          outbound := c.outbound ++ [.reply id (answer c.options r)] }) := by
  simp [onServerRequest, h, enqueue]

/-- The request that waits under an id has that id. -/
theorem id_of_pending? {c : Client Context} {id : Int} {p : PendingRequest Context}
    (h : c.pending? id = some p) : p.id = id ∧ p ∈ c.pending :=
  ⟨by simpa using List.find?_some h, List.mem_of_find?_eq_some h⟩

theorem pending?_eq_none {c : Client Context} {id : Int} :
    c.pending? id = none ↔ ∀ p ∈ c.pending, p.id ≠ id := by
  simp [pending?]

/-- The client without a request that waited. -/
def without (c : Client Context) (p : PendingRequest Context) : Client Context :=
  { c with pending := c.pending.filter fun q => q.id != p.id }

theorem onResponse_of_some {c : Client Context} {id : RequestId} {p : PendingRequest Context}
    (outcome : Except ResponseError Json) (h : id.number?.bind c.pending? = some p) :
    c.onResponse id outcome = (c.without p).settle p outcome := by
  simp [onResponse, h, without]

theorem onResponse_of_none {c : Client Context} {id : RequestId}
    (outcome : Except ResponseError Json) (h : id.number?.bind c.pending? = none) :
    c.onResponse id outcome = ([], c) := by
  simp [onResponse, h]

/-- What comes of an answer, by the request it answers. -/
theorem settle_cases (c : Client Context) (p : PendingRequest Context)
    (outcome : Except ResponseError Json) :
    (∃ result, p.method = Method.start ∧ outcome = .ok result ∧
      c.settle p outcome = c.finishHandshake result) ∨
    (∃ e, p.method = Method.start ∧ outcome = .error e ∧
      c.settle p outcome = ([.error p.id p.method e, .exited], c.exit)) ∨
    (p.method = Method.shutdown ∧ c.settle p outcome = ([.exited], c.exit)) ∨
    (∃ result, p.method ≠ Method.start ∧ p.method ≠ Method.shutdown ∧ outcome = .ok result ∧
      c.settle p outcome = ([.response p.id p.method result p.context], c)) ∨
    (∃ e, p.method ≠ Method.start ∧ p.method ≠ Method.shutdown ∧ outcome = .error e ∧
      c.settle p outcome = ([.error p.id p.method e], c)) := by
  by_cases hs : p.method = Method.start
  · cases outcome with
    | ok result => exact .inl ⟨result, hs, rfl, by simp [settle, hs]⟩
    | error e => exact .inr (.inl ⟨e, hs, rfl, by simp [settle, hs]⟩)
  by_cases hd : p.method = Method.shutdown
  · exact .inr (.inr (.inl ⟨hd, by simp only [settle, if_neg hs, if_pos hd]⟩))
  · cases outcome with
    | ok result => exact .inr (.inr (.inr (.inl ⟨result, hs, hd, rfl, by simp [settle, hs, hd]⟩)))
    | error e => exact .inr (.inr (.inr (.inr ⟨e, hs, hd, rfl, by simp [settle, hs, hd]⟩)))

section Receive

variable {c : Client Context} {body : List UInt8}

theorem receive_of_error {e : IncomingError} (h : Incoming.decode body = .error e) :
    (c.receive body).2 = c := by
  rw [receive, h]

theorem receive_of_notification {note : ServerNotification}
    (h : Incoming.decode body = .ok (.notification note)) : (c.receive body).2 = c := by
  rw [receive, h]
  cases note <;> rfl

theorem receive_of_response {id : RequestId} {outcome : Except ResponseError Json}
    (h : Incoming.decode body = .ok (.response id outcome)) :
    c.receive body = c.onResponse id outcome := by
  rw [receive, h]

theorem receive_of_request {id : RequestId} {r : ServerRequest}
    (h : Incoming.decode body = .ok (.request id r)) :
    c.receive body = c.onServerRequest id r := by
  rw [receive, h]

end Receive

/-- A body that is no message, or a notification, leaves the client as it is. -/
theorem receive_cases (c : Client Context) (body : List UInt8) :
    (∃ id outcome, Incoming.decode body = .ok (.response id outcome) ∧
      c.receive body = c.onResponse id outcome) ∨
    (∃ id r, Incoming.decode body = .ok (.request id r) ∧
      c.receive body = c.onServerRequest id r) ∨
    ((∀ id outcome, Incoming.decode body ≠ .ok (.response id outcome)) ∧
      (c.receive body).2 = c ∧
      ((c.receive body).1 = [] ∨ ∃ note, (c.receive body).1 = [.notification note])) := by
  cases h : Incoming.decode body with
  | error e => exact .inr (.inr ⟨by simp, by simp [receive, h]⟩)
  | ok m =>
    cases m with
    | response id outcome => exact .inl ⟨id, outcome, rfl, by simp [receive, h]⟩
    | request id r => exact .inr (.inl ⟨id, r, rfl, by simp [receive, h]⟩)
    | notification note =>
      refine .inr (.inr ⟨by simp, ?_⟩)
      cases note <;> simp [receive, h]

end Client

/-! ## Runs -/

inductive ClientCall (Context : Type) where
  | connect (processId : Nat)
  | request (method : String) (params : Option Json) (context : Option Context)
  | notify (method : String) (params : Option Json)
  | shutdown
  | exit
  | takeOutbound
  | receive (body : List UInt8)

/-- A client and what came of the calls on it. -/
structure ClientTrace (Context : Type) where
  client : Client Context
  /-- The messages the caller has taken. -/
  taken : List Outgoing
  /-- The requests the caller was given an id for, as it asked for them. -/
  granted : List (PendingRequest Context)
  events : List (ClientEvent Context)
  /-- The ids for which a response came in after a request was queued under them. -/
  answered : List Int

def Outgoing.requestId? : Outgoing → Option Int
  | .request id _ _ => some id
  | .notification _ _ => none
  | .reply _ _ => none

namespace ClientTrace

def start (options : ClientOptions) : ClientTrace Context :=
  ⟨Client.new options, [], [], [], []⟩

/-- All messages that were queued, in their order. -/
def sent (t : ClientTrace Context) : List Outgoing :=
  t.taken ++ t.client.outbound

/-- The ids under which requests were queued, in their order. -/
def issued (t : ClientTrace Context) : List Int :=
  t.sent.filterMap Outgoing.requestId?

/-- The id that a body answers, if a request was queued under it before. -/
def answers? (t : ClientTrace Context) (body : List UInt8) : Option Int :=
  match Incoming.decode body with
  | .ok (.response (.number id) _) => if id ∈ t.issued then some id else none
  | _ => none

def step (t : ClientTrace Context) : ClientCall Context → ClientTrace Context
  | .connect processId => { t with client := (t.client.connect processId).2 }
  | .request method params context =>
    match t.client.request method params context with
    | (.ok id, client) =>
      { t with client := client, granted := t.granted ++ [⟨id, method, context⟩] }
    | (.error _, client) => { t with client := client }
  | .notify method params => { t with client := (t.client.notify method params).2 }
  | .shutdown => { t with client := t.client.shutdown }
  | .exit => { t with client := t.client.exit }
  | .takeOutbound =>
    { t with client := t.client.takeOutbound.2, taken := t.taken ++ t.client.takeOutbound.1 }
  | .receive body =>
    { t with
      client := (t.client.receive body).2
      events := t.events ++ (t.client.receive body).1
      answered := t.answered ++ (t.answers? body).toList }

def run (t : ClientTrace Context) (calls : List (ClientCall Context)) : ClientTrace Context :=
  calls.foldl step t

theorem run_append (t : ClientTrace Context) (calls more : List (ClientCall Context)) :
    t.run (calls ++ more) = (t.run calls).run more :=
  List.foldl_append

/-- What holds at the start and is kept by every call that is allowed holds after a run. -/
theorem run_invariant (P : ClientTrace Context → Prop) (allowed : ClientCall Context → Prop)
    (keeps : ∀ t call, allowed call → P t → P (t.step call)) (calls : List (ClientCall Context)) :
    ∀ t, P t → (∀ call ∈ calls, allowed call) → P (t.run calls) := by
  induction calls with
  | nil => exact fun t h _ => h
  | cons call calls ih =>
    intro t h hc
    exact ih _ (keeps t call (hc call (List.mem_cons_self ..)) h)
      fun x hx => hc x (List.mem_cons_of_mem _ hx)

end ClientTrace

end LanguageClient
