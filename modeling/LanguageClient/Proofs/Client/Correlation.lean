import LanguageClient.Proofs.Client.Run

/-!
# Requests and their answers

Every request gets an id of its own, and its answer comes back under that id.
A `Ledger` is what a run shows of this: the messages, the requests that wait,
the requests the caller has ids for, the events, and the ids that were
answered. An operation of a client makes a few entries in it: a message
without an id (`post`), a request (`issue`), an answer (`settle`), the exit
(`leave`). `Matched` is kept by each entry, so by every call.

* `run_correlated`: ids never repeat, an answer is reported once and with
  what its request was sent with, and what waits is what was not answered.
-/
namespace LanguageClient

variable {Context : Type}

/-- The id of the request that an event reports the answer to. -/
def ClientEvent.requestId? : ClientEvent Context → Option Int
  | .response id _ _ _ => some id
  | .error id _ _ => some id
  | _ => none

/-- What a run shows of requests and answers. -/
structure Ledger (Context : Type) where
  sent : List Outgoing
  next : Int
  gone : Bool
  pending : List (PendingRequest Context)
  granted : List (PendingRequest Context)
  events : List (ClientEvent Context)
  answered : List Int

def ClientTrace.ledger (t : ClientTrace Context) : Ledger Context :=
  ⟨t.sent, t.client.nextId, t.client.state = .exited, t.client.pending, t.granted, t.events,
    t.answered⟩

namespace Ledger

/-! ## Entries -/

/-- The ids of the requests. -/
def issued (l : Ledger Context) : List Int :=
  l.sent.filterMap Outgoing.requestId?

/-- The ids of the answers reported. -/
def reported (l : Ledger Context) : List Int :=
  l.events.filterMap ClientEvent.requestId?

/-- A message without an id of this side goes out. -/
def post (l : Ledger Context) (m : Outgoing) : Ledger Context :=
  { l with sent := l.sent ++ [m] }

/-- A request goes out under the next id, which the caller is given if it asked for it. -/
def issue (l : Ledger Context) (method : String) (params : Option Json)
    (context : Option Context) (asked : Bool) : Ledger Context :=
  let p := ⟨l.next, method, context⟩
  { l with
    sent := l.sent ++ [.request l.next method params]
    next := l.next + 1
    pending := l.pending ++ [p]
    granted := l.granted ++ if asked then [p] else [] }

/-- Events are reported that answer nothing. -/
def tell (l : Ledger Context) (events : List (ClientEvent Context)) : Ledger Context :=
  { l with events := l.events ++ events }

/-- An answer comes in for a request that waits, and events report it. -/
def settle (l : Ledger Context) (p : PendingRequest Context)
    (events : List (ClientEvent Context)) : Ledger Context :=
  { l with
    pending := l.pending.filter fun q => q.id != p.id
    events := l.events ++ events
    answered := l.answered ++ [p.id] }

/-- An answer comes in for a request that waits no more. -/
def disregard (l : Ledger Context) (id : Int) : Ledger Context :=
  { l with answered := l.answered ++ [id] }

/-- The client exits and waits for nothing more. -/
def leave (l : Ledger Context) : Ledger Context :=
  { l with gone := true, pending := [] }

/-! ## The invariant -/

/-- What the request that a client sends by itself waits as. -/
def IsOwn (p : PendingRequest Context) : Prop :=
  p.context = none ∧ (p.method = Method.start ∨ p.method = Method.shutdown)

/-- Requests and answers belong together. -/
structure Matched (l : Ledger Context) : Prop where
  sorted : l.issued.Pairwise (· < ·)
  below : ∀ id ∈ l.issued, id < l.next
  answered : ∀ id ∈ l.answered, id ∈ l.issued
  gone : l.gone = true → l.pending = []
  waiting : l.gone = false → l.pending.map (·.id) = l.issued.filter (· ∉ l.answered)
  record : ∀ p ∈ l.pending,
    (∃ params, .request p.id p.method params ∈ l.sent) ∧ (p ∈ l.granted ∨ IsOwn p)
  fresh : ∀ p ∈ l.pending, p.id ∉ l.reported
  granted : (l.granted.map (·.id)).Sublist l.issued
  once : l.reported.Nodup
  response : ∀ id method result context,
    .response id method result context ∈ l.events → ⟨id, method, context⟩ ∈ l.granted
  source : ∀ id ∈ l.reported, id ∈ l.issued
  error : ∀ id method e, .error id method e ∈ l.events →
    ∃ params, .request id method params ∈ l.sent

variable {l : Ledger Context}

theorem issued_post {m : Outgoing} (hm : m.requestId? = none) : (l.post m).issued = l.issued := by
  simp [issued, post, hm]

theorem issued_issue (method : String) (params : Option Json) (context : Option Context)
    (asked : Bool) : (l.issue method params context asked).issued = l.issued ++ [l.next] := by
  simp [issued, issue, Outgoing.requestId?]

theorem matched_new (options : ClientOptions) :
    Matched (ClientTrace.start options : ClientTrace Context).ledger where
  sorted := .nil
  below := fun id h => by cases h
  answered := fun id h => by cases h
  gone := fun _ => rfl
  waiting := fun _ => rfl
  record := fun p h => by cases h
  fresh := fun p h => by cases h
  granted := .slnil
  once := .nil
  response := fun _ _ _ _ h => by cases h
  source := fun id h => by cases h
  error := fun _ _ _ h => by cases h

theorem Matched.post (h : Matched l) {m : Outgoing} (hm : m.requestId? = none) :
    Matched (l.post m) where
  sorted := by rw [issued_post hm]; exact h.sorted
  below := by rw [issued_post hm]; exact h.below
  answered := by rw [issued_post hm]; exact h.answered
  gone := h.gone
  waiting := by rw [issued_post hm]; exact h.waiting
  record p hp := by
    obtain ⟨⟨params, hr⟩, ho⟩ := h.record p hp
    exact ⟨⟨params, List.mem_append_left _ hr⟩, ho⟩
  fresh := h.fresh
  granted := by rw [issued_post hm]; exact h.granted
  once := h.once
  response := h.response
  source := by rw [issued_post hm]; exact h.source
  error id method e he := by
    obtain ⟨params, hr⟩ := h.error id method e he
    exact ⟨params, List.mem_append_left _ hr⟩

/-- The next id is new to everything that knows ids. -/
theorem Matched.next_not_mem (h : Matched l) : l.next ∉ l.issued :=
  fun hn => absurd (h.below _ hn) (Int.lt_irrefl _)

theorem Matched.issue (h : Matched l) (hg : l.gone = false) (method : String)
    (params : Option Json) (context : Option Context) (asked : Bool)
    (ho : asked = false → IsOwn (⟨l.next, method, context⟩ : PendingRequest Context)) :
    Matched (l.issue method params context asked) where
  sorted := by
    rw [issued_issue, List.pairwise_append]
    refine ⟨h.sorted, List.pairwise_singleton _ _, fun a ha b hb => ?_⟩
    rw [List.mem_singleton.1 hb]
    exact h.below a ha
  below id hid := by
    rw [issued_issue, List.mem_append, List.mem_singleton] at hid
    show id < l.next + 1
    rcases hid with hid | rfl
    · have := h.below id hid; omega
    · omega
  answered id hid := by
    rw [issued_issue]
    exact List.mem_append_left _ (h.answered id hid)
  gone hx := by rw [show l.gone = true from hx] at hg; cases hg
  waiting _ := by
    have hn : l.next ∉ l.answered := fun hn => h.next_not_mem (h.answered _ hn)
    have hw := h.waiting hg
    rw [issued_issue, List.filter_append]
    show (l.pending ++ [_]).map _ =
      l.issued.filter (· ∉ l.answered) ++ [l.next].filter (· ∉ l.answered)
    rw [List.map_append, hw]
    simp [hn]
  record p hp := by
    rcases List.mem_append.1 hp with hp | hp
    · obtain ⟨⟨params', hr⟩, ho'⟩ := h.record p hp
      exact ⟨⟨params', List.mem_append_left _ hr⟩, ho'.imp_left (List.mem_append_left _)⟩
    · rw [List.mem_singleton.1 hp]
      refine ⟨⟨params, by simp [Ledger.issue]⟩, ?_⟩
      cases asked
      · exact .inr (ho rfl)
      · exact .inl (by simp [Ledger.issue])
  fresh p hp := by
    rcases List.mem_append.1 hp with hp | hp
    · exact h.fresh p hp
    · rw [List.mem_singleton.1 hp]
      exact fun hn => h.next_not_mem (h.source _ hn)
  granted := by
    rw [issued_issue, Ledger.issue, List.map_append]
    exact h.granted.append (by cases asked <;> simp)
  once := h.once
  response id method' result context' hr :=
    List.mem_append_left _ (h.response id method' result context' hr)
  source id hid := by
    rw [issued_issue]
    exact List.mem_append_left _ (h.source id hid)
  error id method' e he := by
    obtain ⟨params', hr⟩ := h.error id method' e he
    exact ⟨params', List.mem_append_left _ hr⟩

/-- Events that answer nothing. -/
theorem Matched.tell (h : Matched l) {events : List (ClientEvent Context)}
    (he : ∀ e ∈ events, e.requestId? = none) : Matched (l.tell events) := by
  have hr : (l.tell events).reported = l.reported := by
    simpa [reported, Ledger.tell, List.filterMap_append, List.filterMap_eq_nil_iff] using he
  exact
    { h with
      fresh := by rw [hr]; exact h.fresh
      once := by rw [hr]; exact h.once
      source := by rw [hr]; exact h.source
      response := fun id method result context hm => by
        rcases List.mem_append.1 hm with hm | hm
        · exact h.response id method result context hm
        · cases he _ hm
      error := fun id method e hm => by
        rcases List.mem_append.1 hm with hm | hm
        · exact h.error id method e hm
        · cases he _ hm }

theorem Matched.leave (h : Matched l) : Matched l.leave :=
  { h with
    gone := fun _ => rfl
    waiting := fun hg => by cases hg
    record := fun p hp => by cases hp
    fresh := fun p hp => by cases hp }

/-- An id that waits was issued and not answered. -/
theorem Matched.waits (h : Matched l) {p : PendingRequest Context} (hp : p ∈ l.pending) :
    l.gone = false ∧ p.id ∈ l.issued ∧ p.id ∉ l.answered := by
  have hg : l.gone = false := by
    cases hx : l.gone
    · rfl
    · rw [h.gone hx] at hp; cases hp
  have hm : p.id ∈ l.issued.filter (· ∉ l.answered) := by
    rw [← h.waiting hg]
    exact List.mem_map_of_mem hp
  obtain ⟨hi, ha⟩ := List.mem_filter.1 hm
  exact ⟨hg, hi, of_decide_eq_true ha⟩

theorem Matched.disregard (h : Matched l) {id : Int} (hid : id ∈ l.issued)
    (hp : ∀ p ∈ l.pending, p.id ≠ id) : Matched (l.disregard id) :=
  { h with
    answered := fun n hn => by
      rcases List.mem_append.1 hn with hn | hn
      · exact h.answered n hn
      · rw [List.mem_singleton.1 hn]; exact hid
    waiting := fun hg => by
      have hw := h.waiting hg
      -- An id that was issued and waits no more was answered before.
      have ha : id ∈ l.answered := by
        refine Decidable.byContradiction fun hn => ?_
        have hm : id ∈ l.pending.map (·.id) := by
          rw [hw]; exact List.mem_filter.2 ⟨hid, by simpa using hn⟩
        obtain ⟨p, hpm, he⟩ := List.mem_map.1 hm
        exact hp p hpm he
      rw [show (l.disregard id).pending = l.pending from rfl, hw]
      refine List.filter_congr fun n _ => ?_
      by_cases hn : n = id <;> simp [Ledger.disregard, hn, ha] }

/-- The answer to a request that waits, with events that report that request at most once and as
it was sent. -/
theorem Matched.settle (h : Matched l) {p : PendingRequest Context} (hp : p ∈ l.pending)
    {events : List (ClientEvent Context)}
    (hone : events.filterMap ClientEvent.requestId? = [] ∨
      events.filterMap ClientEvent.requestId? = [p.id])
    (hresponse : ∀ id method result context, .response id method result context ∈ events →
      ⟨id, method, context⟩ ∈ l.granted)
    (herror : ∀ id method e, .error id method e ∈ events → id = p.id ∧ method = p.method) :
    Matched (l.settle p events) := by
  obtain ⟨hg, hissued, hanswered⟩ := h.waits hp
  have hr : (l.settle p events).reported =
      l.reported ++ events.filterMap ClientEvent.requestId? := by
    simp [reported, Ledger.settle]
  exact
    { h with
      answered := fun n hn => by
        rcases List.mem_append.1 hn with hn | hn
        · exact h.answered n hn
        · rw [List.mem_singleton.1 hn]; exact hissued
      gone := fun hx => by rw [show l.gone = true from hx] at hg; cases hg
      waiting := fun _ => by
        have hw := congrArg (List.filter (· != p.id)) (h.waiting hg)
        rw [List.filter_map, List.filter_filter] at hw
        refine (Eq.trans ?_ hw).trans (List.filter_congr fun n _ => ?_)
        · rfl
        · by_cases hn : n = p.id <;> simp [Ledger.settle, hn]
      record := fun q hq => h.record q (List.mem_filter.1 hq).1
      fresh := fun q hq => by
        obtain ⟨hq, hne⟩ := List.mem_filter.1 hq
        rw [hr, List.mem_append, not_or]
        refine ⟨h.fresh q hq, ?_⟩
        rcases hone with ho | ho <;> rw [ho]
        · exact List.not_mem_nil
        · simpa using hne
      once := by
        rw [hr]
        rcases hone with ho | ho <;> rw [ho]
        · simpa using h.once
        · rw [List.nodup_append]
          refine ⟨h.once, by simp, fun a ha b hb => ?_⟩
          rw [List.mem_singleton.1 hb]
          exact fun hab => h.fresh p hp (hab ▸ ha)
      source := fun n hn => by
        rw [hr, List.mem_append] at hn
        rcases hn with hn | hn
        · exact h.source n hn
        · rcases hone with ho | ho <;> rw [ho] at hn
          · cases hn
          · rw [List.mem_singleton.1 hn]; exact hissued
      response := fun id method result context hm => by
        rcases List.mem_append.1 hm with hm | hm
        · exact h.response id method result context hm
        · exact hresponse id method result context hm
      error := fun id method e hm => by
        rcases List.mem_append.1 hm with hm | hm
        · exact h.error id method e hm
        · obtain ⟨rfl, rfl⟩ := herror id method e hm
          exact (h.record p hp).1 }

/-! ## Calls as entries -/

/-- The ledger once the client exits. -/
theorem Matched.exit (h : Matched l) : Matched (l.post (.notification Method.exit none)).leave :=
  (h.post rfl).leave

variable {t : ClientTrace Context}

theorem ledger_gone : t.ledger.gone = false ↔ t.client.state ≠ .exited := by
  simp [ClientTrace.ledger]

theorem ledger_exit (hs : t.client.state ≠ .exited) :
    ({ t with client := t.client.exit } : ClientTrace Context).ledger =
      (t.ledger.post (.notification Method.exit none)).leave := by
  rw [Client.exit_of_ne _ hs]
  simp [ClientTrace.ledger, ClientTrace.sent, Ledger.post, Ledger.leave]

theorem ledger_stopping (hs : t.client.state ≠ .exited) :
    ({ t with client := t.client.stopping } : ClientTrace Context).ledger =
      t.ledger.issue Method.shutdown none none false := by
  simp [ClientTrace.ledger, ClientTrace.sent, Ledger.issue, Client.stopping, hs]

theorem matched_exit (h : Matched t.ledger) :
    Matched ({ t with client := t.client.exit } : ClientTrace Context).ledger := by
  by_cases hs : t.client.state = .exited
  · rw [Client.exit_of_exited _ hs]; exact h
  · rw [ledger_exit hs]; exact h.exit

theorem matched_stopping (h : Matched t.ledger) (hs : t.client.state ≠ .exited) :
    Matched ({ t with client := t.client.stopping } : ClientTrace Context).ledger := by
  rw [ledger_stopping hs]
  exact h.issue (ledger_gone.2 hs) _ _ _ _ fun _ => ⟨rfl, .inr rfl⟩

theorem matched_connect (h : Matched t.ledger) (processId : Nat) :
    Matched (t.step (.connect processId)).ledger := by
  by_cases hs : t.client.state = .uninitialized
  · have he : (t.step (.connect processId)).ledger = t.ledger.issue Method.start
        (some (Params.handshake processId t.client.options.rootUri
          t.client.options.initializationOptions)) none false := by
      simp [ClientTrace.step, Client.connect_of_uninitialized _ _ hs, ClientTrace.ledger,
        ClientTrace.sent, Ledger.issue, hs]
    rw [he]
    exact h.issue (ledger_gone.2 (by simp [hs])) _ _ _ _ fun _ => ⟨rfl, .inl rfl⟩
  · simpa only [ClientTrace.step, Client.connect_of_ne _ _ hs] using h

theorem matched_request (h : Matched t.ledger) (method : String) (params : Option Json)
    (context : Option Context) : Matched (t.step (.request method params context)).ledger := by
  by_cases hs : t.client.state = .running
  · have he : (t.step (.request method params context)).ledger =
        t.ledger.issue method params context true := by
      simp [ClientTrace.step, Client.request_of_running _ _ _ _ hs, ClientTrace.ledger,
        ClientTrace.sent, Ledger.issue, hs]
    rw [he]
    exact h.issue (ledger_gone.2 (by simp [hs])) _ _ _ _ (fun hx => by cases hx)
  · simpa only [ClientTrace.step, Client.request_of_ne _ _ _ _ hs] using h

theorem matched_notify (h : Matched t.ledger) (method : String) (params : Option Json) :
    Matched (t.step (.notify method params)).ledger := by
  by_cases hs : t.client.state = .running
  · have he : (t.step (.notify method params)).ledger =
        t.ledger.post (.notification method params) := by
      simp [ClientTrace.step, Client.notify_of_running _ _ _ hs, ClientTrace.ledger,
        ClientTrace.sent, Ledger.post]
    rw [he]
    exact h.post rfl
  · simpa only [ClientTrace.step, Client.notify_of_ne _ _ _ hs] using h

theorem matched_shutdown (h : Matched t.ledger) : Matched (t.step .shutdown).ledger := by
  rcases t.client.shutdown_cases with ⟨-, he⟩ | ⟨hs, he⟩ | ⟨-, he⟩
  · simp only [ClientTrace.step, he]; exact h
  · simp only [ClientTrace.step, he]; exact matched_stopping h (by simp [hs])
  · simp only [ClientTrace.step, he]; exact h

theorem matched_onServerRequest (h : Matched t.ledger) (id : RequestId) (r : ServerRequest) :
    Matched ({ t with
      client := (t.client.onServerRequest id r).2
      events := t.events ++ (t.client.onServerRequest id r).1 } : ClientTrace Context).ledger := by
  have hevents : ∀ e ∈ (Client.requestEvents r : List (ClientEvent Context)),
      e.requestId? = none := by
    intro e he
    cases r <;> simp [Client.requestEvents] at he <;> rw [he] <;> rfl
  by_cases hs : t.client.state = .exited
  · rw [Client.onServerRequest_of_exited _ _ _ hs]
    exact h.tell hevents
  · rw [Client.onServerRequest_of_ne _ _ _ hs]
    have he : ({ t with
        client := { t.client with
          registry := Client.registryAfter t.client.registry r
          outbound := t.client.outbound ++ [.reply id (Client.answer t.client.options r)] }
        events := t.events ++ Client.requestEvents r } : ClientTrace Context).ledger =
          (t.ledger.tell (Client.requestEvents r)).post
            (.reply id (Client.answer t.client.options r)) := by
      simp [ClientTrace.ledger, ClientTrace.sent, Ledger.post, Ledger.tell]
    rw [he]
    exact (h.tell hevents).post rfl

/-- The trace once an answer has come in for a request that waits, before it has any effect. -/
def answeredTrace (t : ClientTrace Context) (p : PendingRequest Context)
    (events : List (ClientEvent Context)) : ClientTrace Context :=
  { t with
    client := t.client.without p
    events := t.events ++ events
    answered := t.answered ++ [p.id] }

theorem matched_finishHandshake (h : Matched t.ledger) (hs : t.client.state ≠ .exited)
    (result : Json) :
    Matched ({ t with client := (t.client.finishHandshake result).2 } :
      ClientTrace Context).ledger := by
  obtain ⟨-, ⟨-, he⟩ | ⟨-, he⟩⟩ := t.client.finishHandshake_cases result
  · rw [he]
    have hl : ({ t with client := t.client.greeted result } : ClientTrace Context).ledger =
        t.ledger.post (.notification Method.started (some (.obj []))) := by
      simp [ClientTrace.ledger, ClientTrace.sent, Ledger.post, Client.greeted, hs]
    rw [hl]
    exact h.post rfl
  · rw [he]
    have hl : ({ t with
        client := { t.client.greeted result with deferredShutdown := false } } :
          ClientTrace Context).ledger =
        t.ledger.post (.notification Method.started (some (.obj []))) := by
      simp [ClientTrace.ledger, ClientTrace.sent, Ledger.post, Client.greeted, hs]
    exact matched_stopping (t := { t with
      client := { t.client.greeted result with deferredShutdown := false } })
      (hl ▸ h.post rfl) (by simp [Client.greeted])

theorem matched_settle (h : Matched t.ledger) {p : PendingRequest Context}
    (hp : p ∈ t.client.pending) (outcome : Except ResponseError Json) :
    Matched ({ t with
      client := ((t.client.without p).settle p outcome).2
      events := t.events ++ ((t.client.without p).settle p outcome).1
      answered := t.answered ++ [p.id] } : ClientTrace Context).ledger := by
  have hs : t.client.state ≠ .exited := ledger_gone.1 (h.waits hp).1
  rcases (t.client.without p).settle_cases p outcome with
    ⟨result, -, -, he⟩ | ⟨e, -, -, he⟩ | ⟨-, he⟩ | ⟨result, hm, hm', -, he⟩ | ⟨e, hm, hm', -, he⟩
  · rw [he, ((t.client.without p).finishHandshake_cases result).1]
    exact matched_finishHandshake (t := answeredTrace t p _)
      (h.settle hp (.inl rfl) (by simp) (by simp)) hs result
  · rw [he]
    refine matched_exit (t := answeredTrace t p _)
      (h.settle hp (.inr rfl) (by simp) (fun id method e' hr => ?_))
    obtain ⟨rfl, rfl, -⟩ : id = p.id ∧ method = p.method ∧ e' = e := by simpa using hr
    exact ⟨rfl, rfl⟩
  · rw [he]
    exact matched_exit (t := answeredTrace t p _) (h.settle hp (.inl rfl) (by simp) (by simp))
  · rw [he]
    refine h.settle hp (.inr rfl) (fun id method result' context hr => ?_) (by simp)
    obtain ⟨rfl, rfl, -, rfl⟩ : id = p.id ∧ method = p.method ∧ result' = result ∧
        context = p.context := by simpa using hr
    rcases (h.record p hp).2 with hg | ⟨-, ho | ho⟩
    · exact hg
    · exact absurd ho hm
    · exact absurd ho hm'
  · rw [he]
    refine h.settle hp (.inr rfl) (by simp) (fun id method e' hr => ?_)
    obtain ⟨rfl, rfl, -⟩ : id = p.id ∧ method = p.method ∧ e' = e := by simpa using hr
    exact ⟨rfl, rfl⟩

/-- A response to the request under a number that waits. -/
theorem answers?_of_pending (h : Matched t.ledger) {p : PendingRequest Context}
    (hp : p ∈ t.client.pending) {body : List UInt8} {outcome : Except ResponseError Json}
    (hd : Incoming.decode body = .ok (.response (.number p.id) outcome)) :
    t.answers? body = some p.id := by
  have hi : p.id ∈ t.issued := (h.waits hp).2.1
  simp [ClientTrace.answers?, hd, hi]

/-- A response that no request waits for leaves at most its id behind. -/
theorem matched_unmatched (h : Matched t.ledger) {body : List UInt8} {id : RequestId}
    {outcome : Except ResponseError Json}
    (hd : Incoming.decode body = .ok (.response id outcome))
    (hn : id.number?.bind t.client.pending? = none) :
    Matched ({ t with answered := t.answered ++ (t.answers? body).toList } :
      ClientTrace Context).ledger := by
  cases id with
  | text s => simpa [ClientTrace.answers?, hd] using h
  | number n =>
    by_cases hi : n ∈ t.issued
    · simp only [ClientTrace.answers?, hd, if_pos hi]
      exact h.disregard hi (Client.pending?_eq_none.1 hn)
    · simpa [ClientTrace.answers?, hd, hi] using h

theorem matched_receive (h : Matched t.ledger) (body : List UInt8) :
    Matched (t.step (.receive body)).ledger := by
  rcases t.client.receive_cases body with
    ⟨id, outcome, hd, he⟩ | ⟨id, r, hd, he⟩ | ⟨hd, he, hevents⟩
  · simp only [ClientTrace.step, he]
    cases hw : id.number?.bind t.client.pending? with
    | none =>
      rw [Client.onResponse_of_none _ hw, List.append_nil]
      exact matched_unmatched h hd hw
    | some p =>
      cases id with
      | text s => cases hw
      | number n =>
        obtain ⟨rfl, hp⟩ := Client.id_of_pending? hw
        rw [Client.onResponse_of_some outcome hw, answers?_of_pending h hp hd]
        exact matched_settle h hp outcome
  · have ha : t.answers? body = none := by simp [ClientTrace.answers?, hd]
    simp only [ClientTrace.step, he, ha, Option.toList_none, List.append_nil]
    exact matched_onServerRequest h id r
  · have ha : t.answers? body = none := by
      unfold ClientTrace.answers?
      split
      · next hx => exact absurd hx (hd _ _)
      · rfl
    simp only [ClientTrace.step, he, ha, Option.toList_none, List.append_nil]
    refine h.tell fun e hx => ?_
    rcases hevents with hevents | ⟨note, hevents⟩ <;> rw [hevents] at hx
    · cases hx
    · rw [List.mem_singleton.1 hx]; rfl

/-- Every call keeps requests and answers together. -/
theorem matched_step (h : Matched t.ledger) (call : ClientCall Context) :
    Matched (t.step call).ledger := by
  cases call with
  | connect processId => exact matched_connect h processId
  | request method params context => exact matched_request h method params context
  | notify method params => exact matched_notify h method params
  | shutdown => exact matched_shutdown h
  | exit => exact matched_exit h
  | takeOutbound =>
    have he : (t.step .takeOutbound).ledger = t.ledger := by
      simp [ClientTrace.step, Client.takeOutbound, ClientTrace.ledger, ClientTrace.sent]
      rfl
    rw [he]
    exact h
  | receive body => exact matched_receive h body

theorem matched_run (options : ClientOptions) (calls : List (ClientCall Context)) :
    Matched ((ClientTrace.start options).run calls).ledger :=
  ClientTrace.run_invariant (fun t => Matched t.ledger) (fun _ => True)
    (fun _ call _ h => matched_step h call) calls _ (matched_new options) fun _ _ => trivial

/-! ## What waits -/

/-- Two requests that wait under one id are one. -/
theorem Matched.unique (h : Matched t.ledger) {p q : PendingRequest Context}
    (hp : p ∈ t.client.pending) (hq : q ∈ t.client.pending) (hid : p.id = q.id) : p = q := by
  have hs : (t.client.pending.map (·.id)).Pairwise (· < ·) := by
    rw [show t.client.pending.map (·.id) = _ from h.waiting (h.waits hp).1]
    exact h.sorted.filter _
  have hn := List.pairwise_map.1 hs
  exact List.Pairwise.forall_of_forall_of_flip (R := fun p q => p.id = q.id → p = q)
    (fun _ _ _ => rfl) (hn.imp fun hlt he => absurd he (Int.ne_of_lt hlt))
    (hn.imp fun hlt he => absurd he.symm (Int.ne_of_lt hlt)) hp hq hid

theorem Matched.pending? (h : Matched t.ledger) {p : PendingRequest Context}
    (hp : p ∈ t.client.pending) : t.client.pending? p.id = some p := by
  cases hw : t.client.pending? p.id with
  | none => exact absurd rfl (Client.pending?_eq_none.1 hw p hp)
  | some q =>
    obtain ⟨hid, hq⟩ := Client.id_of_pending? hw
    rw [h.unique hq hp hid]

/-- The event that reports the answer to a request. -/
def reportOf (p : PendingRequest Context) : Except ResponseError Json → ClientEvent Context
  | .ok result => .response p.id p.method result p.context
  | .error e => .error p.id p.method e

/-- **Requests and their answers.** Whatever is called and taken in, ids only grow and those the
caller is given are among them; each is answered at most once, with the method and the context
of the request it was given for, and nothing else is; until the exit the requests that wait are
those not yet answered, each under its own id; and a response reports the request it is for and
ends its wait, or changes nothing when none waits for it. -/
theorem run_correlated (options : ClientOptions) (calls : List (ClientCall Context)) :
    let t := (ClientTrace.start options).run calls
    t.issued.Pairwise (· < ·) ∧
      (t.granted.map (·.id)).Sublist t.issued ∧
      (t.events.filterMap ClientEvent.requestId?).Nodup ∧
      (∀ id ∈ t.events.filterMap ClientEvent.requestId?, id ∈ t.issued) ∧
      (∀ id method result context, .response id method result context ∈ t.events →
        ⟨id, method, context⟩ ∈ t.granted) ∧
      (t.client.state ≠ .exited →
        t.client.pending.map (·.id) = t.issued.filter (· ∉ t.answered)) ∧
      (∀ p ∈ t.client.pending, t.client.pending? p.id = some p ∧
        (∃ params, .request p.id p.method params ∈ t.sent) ∧
        (p ∈ t.granted ∨ p.context = none ∧ (p.method = Method.start ∨ p.method = Method.shutdown)))
      ∧ ∀ body id outcome, Incoming.decode body = .ok (.response id outcome) →
        ((∀ p ∈ t.client.pending, id ≠ .number p.id) → t.client.receive body = ([], t.client)) ∧
        ∀ p ∈ t.client.pending, id = .number p.id → p.method ≠ Method.start →
          p.method ≠ Method.shutdown →
          t.client.receive body = ([reportOf p outcome], t.client.without p) := by
  intro t
  have h : Matched t.ledger := matched_run options calls
  refine ⟨h.sorted, h.granted, h.once, h.source, h.response,
    fun hs => h.waiting (ledger_gone.2 hs), fun p hp => ⟨h.pending? hp, h.record p hp⟩,
    fun body id outcome hd => ?_⟩
  have he : t.client.receive body = t.client.onResponse id outcome := by
    simp [Client.receive, hd]
  rw [he]
  refine ⟨fun hn => Client.onResponse_of_none _ ?_, fun p hp hid hstart hstop => ?_⟩
  · cases id with
    | text s => rfl
    | number n => exact Client.pending?_eq_none.2 fun p hp hx => hn p hp (by rw [hx])
  · have hw : (RequestId.number p.id).number?.bind t.client.pending? = some p := h.pending? hp
    rw [hid, Client.onResponse_of_some outcome hw]
    cases outcome <;> simp [Client.settle, hstart, hstop, reportOf]

end Ledger

end LanguageClient
