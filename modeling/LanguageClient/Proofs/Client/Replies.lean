import LanguageClient.Proofs.Client.Run
import LanguageClient.Proofs.Json.Reading
import LanguageClient.Proofs.Json.Record

/-!
# Replies to the requests of a server

A request of the server is answered as it comes in, by one message, whatever
it asks for. The answer is told by its bytes: they are read with the reader
of incoming bodies, and what is read is an object with the id of the request
and one outcome.

* `receive_replies`: what each kind of body queues, in every state of the
  client.
* `run_replies`: in a run, the replies that were sent are those to the
  requests that came in before the client exited, in their order.
-/
namespace LanguageClient

open Json (FitsInt Source)

/-! ## Ids -/

namespace RequestId

/-- An id as it can come in: a number of 64 bits or a text. -/
def Fits : RequestId → Prop
  | number n => FitsInt n
  | text _ => True

theorem of_decode {j : Json} {id : RequestId} (h : decode j = .ok id) :
    j = id.toJson ∧ id.Fits := by
  cases j with
  | int n =>
    simp only [decode, Decoder.orElse, Decoder.int64, Decoder.int] at h
    split at h
    · next heq =>
      split at heq
      · next hrange =>
        cases heq
        cases h
        exact ⟨rfl, by rw [Fits, FitsInt]; omega⟩
      · cases heq
    · cases h
  | str s =>
    cases h
    exact ⟨rfl, trivial⟩
  | _ => cases h

/-- An id is read from its printed form as it was. -/
theorem toJson?_source {id : RequestId} (h : id.Fits) (depth : Nat) :
    id.toJson.source.toJson? depth = some id.toJson := by
  cases id with
  | number n => rw [toJson, Json.source_int h, Source.toJson?]
  | text s => rw [toJson, Json.source, Source.toJson?, Option.map_eq_map, Option.map_some]

end RequestId

namespace ServerRequest

theorem orMalformed_cases {α : Type} {method : String} {make : α → ServerRequest}
    {read : Except Mismatch (α × Unit)} {r : ServerRequest}
    (h : orMalformed method make read = r) :
    (∃ x, read = .ok (x, ()) ∧ make x = r) ∨ ∃ reason, malformed method reason = r := by
  cases read with
  | ok x => exact .inl ⟨x.1, rfl, h⟩
  | error reason => exact .inr ⟨reason, h⟩

/-- Only parameters that were read make a request for settings. -/
theorem read_of_decode_configuration {method : String} {params : Json}
    {items : List ConfigurationItem} (h : decode method params = configuration items) :
    configurationFields.read "ConfigurationParams" params = .ok (items, ()) := by
  unfold decode at h
  split at h
  · rcases orMalformed_cases h with ⟨_, -, hr⟩ | ⟨_, hr⟩ <;> cases hr
  split at h
  · rcases orMalformed_cases h with ⟨_, -, hr⟩ | ⟨_, hr⟩ <;> cases hr
  split at h
  · rcases orMalformed_cases h with ⟨_, hread, hr⟩ | ⟨_, hr⟩ <;> cases hr
    exact hread
  split at h
  · cases h
  split at h <;> cases h

end ServerRequest

namespace Incoming

/-- The value of the id in a body. -/
def idValue? (body : List UInt8) : Option Json := do
  let tree ← Source.read? body
  let fields ← fieldSources? ["id", "method", "params", "result", "error"] tree
  let id ← fields.head?.join
  id.toJson? (Json.maxDepth - 1)

/-- The id of an envelope is the value of the first field. -/
theorem exists_idSource {tree : Source} {e : Envelope} {id : RequestId}
    (h : readEnvelope? tree = some e) (hid : e.id = some id) :
    ∃ source fields,
      fieldSources? ["id", "method", "params", "result", "error"] tree =
        some (some source :: fields) ∧
      decodeSource? (Json.maxDepth - 1) RequestId.decode source = some id := by
  simp only [readEnvelope?, Option.bind_eq_bind, Option.bind_eq_some_iff] at h
  obtain ⟨fields, hfields, h⟩ := h
  split at h
  · next source _ _ _ _ =>
    simp only [Option.bind_eq_some_iff] at h
    obtain ⟨id', hid', method, -, params, -, h⟩ := h
    have hsame : id' = e.id := by
      split at h <;>
      · obtain ⟨_, -, _, -, h⟩ := by simpa only [Option.bind_eq_some_iff] using h
        rw [← Option.some.inj h]
    rw [hsame, hid] at hid'
    unfold nullable? at hid'
    split at hid'
    · cases hid'
    · cases hid'
    · next source _ =>
      obtain ⟨id', hdecode, hsome⟩ := Option.map_eq_some_iff.1 hid'
      cases hsome
      exact ⟨source, _, hfields, hdecode⟩
  · cases h

theorem exists_value_of_decodeSource? {α : Type} {read : Decoder α} {source : Source} {x : α}
    {depth : Nat} (h : decodeSource? depth read source = some x) :
    ∃ j, source.toJson? depth = some j ∧ read j = .ok x := by
  obtain ⟨j, hj, hx⟩ := Option.bind_eq_some_iff.1 h
  refine ⟨j, hj, ?_⟩
  cases hread : read j with
  | error e =>
    rw [hread] at hx
    cases hx
  | ok y =>
    rw [hread] at hx
    rw [Option.some.inj hx]

theorem request_of_ofEnvelope {e : Envelope} {id : RequestId} {r : ServerRequest}
    (h : ofEnvelope e = .ok (.request id r)) :
    e.id = some id ∧ ∃ method, ServerRequest.decode method e.params = r := by
  unfold ofEnvelope at h
  split at h
  · next hid hmethod =>
    cases h
    exact ⟨hid, _, rfl⟩
  · split at h <;> cases h
  · split at h <;> cases h
  · cases h

/-- The id of a request is the value of the id in its body. -/
theorem idValue?_of_request {body : List UInt8} {id : RequestId} {r : ServerRequest}
    (h : decode body = .ok (.request id r)) : idValue? body = some id.toJson ∧ id.Fits := by
  unfold decode at h
  split at h
  · next e he =>
    obtain ⟨tree, htree, he⟩ := Option.bind_eq_some_iff.1 he
    obtain ⟨source, fields, hfields, hdecode⟩ := exists_idSource he (request_of_ofEnvelope h).1
    obtain ⟨j, hj, hread⟩ := exists_value_of_decodeSource? hdecode
    obtain ⟨rfl, hfits⟩ := RequestId.of_decode hread
    refine ⟨?_, hfits⟩
    rw [idValue?, htree]
    simp [hfields, hj]
  · cases h

/-- What stands in the parameters of a body in the place of the items that it asks settings for. -/
def requested? (body : List UInt8) : Option Json :=
  ((Source.read? body).bind readEnvelope?).bind fun e =>
    match e.params with
    | .arr items => items.head?
    | params => params.get? "items"

/-- The items that settings are asked for are those of the body, one by one. -/
theorem requested?_of_configuration {body : List UInt8} {id : RequestId}
    {items : List ConfigurationItem}
    (h : decode body = .ok (.request id (.configuration items))) :
    ∃ asked, requested? body = some (.arr asked) ∧
      List.Forall₂ (fun j item => ConfigurationItem.decode j = .ok item) asked items := by
  unfold decode at h
  split at h
  · next e he =>
    obtain ⟨-, method, hmethod⟩ := request_of_ofEnvelope h
    obtain ⟨value, hplace, hlist⟩ :=
      Fields.exists_of_read (ServerRequest.read_of_decode_configuration hmethod)
    obtain ⟨asked, rfl, hitems⟩ := Decoder.list_forall₂ hlist
    refine ⟨asked, ?_, hitems⟩
    rw [requested?, he, Option.bind_some]
    rcases hplace with hget | ⟨rest, harr⟩
    · split
      · next harr => rw [harr] at hget; cases hget
      · exact hget
    · rw [harr]
      rfl
  · cases h

/-- An envelope with an id and a method is a request, whatever its parameters are. -/
theorem decode_of_envelope {body : List UInt8} {e : Envelope} {id : RequestId} {method : String}
    (h : (Source.read? body).bind readEnvelope? = some e) (hid : e.id = some id)
    (hmethod : e.method = some method) :
    decode body = .ok (.request id (ServerRequest.decode method e.params)) := by
  simp [decode, h, ofEnvelope, hid, hmethod]

end Incoming

namespace Outgoing

/-- What the bytes of a reply are read as. -/
theorem read?_reply (id : RequestId) (outcome : Except ResponseError Json) :
    Source.read? (reply id outcome).body =
      some (.object [(some "jsonrpc", .text (some "2.0")), (some "id", id.toJson.source),
        (some (outcomeMember outcome).1, (outcomeMember outcome).2.source)]) := by
  rw [body, Json.read?_toBytes, toJson]
  simp only [Json.source, Json.sourceMembers]

theorem idValue?_reply {id : RequestId} (hid : id.Fits) (outcome : Except ResponseError Json) :
    Incoming.idValue? (reply id outcome).body = some id.toJson := by
  rw [Incoming.idValue?, read?_reply]
  cases outcome <;>
    simp [Incoming.fieldSources?, outcomeMember, RequestId.toJson?_source hid]

end Outgoing

/-! ## What a body queues -/

/-- A message of the handshake or of the end of a connection that an answer of the server can
bring about. -/
def Outgoing.IsLifecycle : Outgoing → Prop
  | .notification method params =>
    (method = Method.started ∧ params = some (.obj [])) ∨ (method = Method.exit ∧ params = none)
  | .request _ method params => method = Method.shutdown ∧ params = none
  | .reply _ _ => False

/-- A message answers a request with some id: its bytes are an object with the version, the id as
it stands in the request, and one outcome, which is a result or an error. -/
structure Outgoing.Answers (m : Outgoing) (request : List UInt8) (id : RequestId)
    (outcome : String) (value : Source) : Prop where
  read : Source.read? m.body = some (.object [(some "jsonrpc", .text (some "2.0")),
    (some "id", id.toJson.source), (some outcome, value)])
  asked : Incoming.idValue? request = some id.toJson
  echoed : Incoming.idValue? m.body = some id.toJson
  outcome : outcome = "result" ∨ outcome = "error"

theorem Outgoing.answers_reply {request : List UInt8} {id : RequestId} {r : ServerRequest}
    (h : Incoming.decode request = .ok (.request id r)) (outcome : Except ResponseError Json) :
    (reply id outcome).Answers request id (outcomeMember outcome).1
      (outcomeMember outcome).2.source := by
  obtain ⟨hid, hfits⟩ := Incoming.idValue?_of_request h
  refine ⟨read?_reply id outcome, hid, idValue?_reply hfits outcome, ?_⟩
  cases outcome with
  | ok result => exact .inl rfl
  | error e => exact .inr rfl

def Outgoing.replyId? : Outgoing → Option RequestId
  | .reply id _ => some id
  | .request _ _ _ => none
  | .notification _ _ => none

namespace Client

variable {Context : Type}

/-- What a call queues when it queues messages of the lifecycle only. -/
def QueuesLifecycle (c c' : Client Context) : Prop :=
  ∃ queued, c'.outbound = c.outbound ++ queued ∧ ∀ m ∈ queued, m.IsLifecycle

theorem queuesLifecycle_exit (c : Client Context) : QueuesLifecycle c c.exit := by
  by_cases h : c.state = .exited
  · rw [exit_of_exited c h]
    exact ⟨[], by simp, by simp⟩
  · rw [exit_of_ne c h]
    exact ⟨[_], rfl, by simp [Outgoing.IsLifecycle]⟩

theorem queuesLifecycle_finishHandshake (c : Client Context) (result : Json) :
    QueuesLifecycle c (c.finishHandshake result).2 := by
  rcases (c.finishHandshake_cases result).2 with ⟨-, h⟩ | ⟨-, h⟩ <;> rw [h]
  · exact ⟨[_], rfl, by simp [Outgoing.IsLifecycle]⟩
  · refine ⟨[_, _], by rw [stopping, greeted, List.append_assoc]; rfl, ?_⟩
    simp [Outgoing.IsLifecycle]

theorem queuesLifecycle_onResponse (c : Client Context) (id : RequestId)
    (outcome : Except ResponseError Json) :
    QueuesLifecycle c (c.onResponse id outcome).2 := by
  cases h : id.number?.bind c.pending? with
  | none =>
    rw [onResponse_of_none outcome h]
    exact ⟨[], by simp, by simp⟩
  | some p =>
    rw [onResponse_of_some outcome h]
    -- the request that waited is gone, which changes nothing that is queued
    rcases (c.without p).settle_cases p outcome with
      ⟨result, -, -, hs⟩ | ⟨e, -, -, hs⟩ | ⟨-, hs⟩ | ⟨result, -, -, -, hs⟩ | ⟨e, -, -, -, hs⟩ <;>
      rw [hs]
    · exact queuesLifecycle_finishHandshake (c.without p) result
    · exact queuesLifecycle_exit (c.without p)
    · exact queuesLifecycle_exit (c.without p)
    · exact ⟨[], by simp [without], by simp⟩
    · exact ⟨[], by simp [without], by simp⟩

theorem outbound_receive_request {c : Client Context} {body : List UInt8} {id : RequestId}
    {r : ServerRequest} (h : Incoming.decode body = .ok (.request id r))
    (hs : c.state ≠ .exited) :
    (c.receive body).2.outbound = c.outbound ++ [.reply id (answer c.options r)] := by
  rw [receive_of_request h, onServerRequest_of_ne c id r hs]

theorem outbound_receive_request_exited {c : Client Context} {body : List UInt8} {id : RequestId}
    {r : ServerRequest} (h : Incoming.decode body = .ok (.request id r))
    (hs : c.state = .exited) : (c.receive body).2.outbound = c.outbound := by
  rw [receive_of_request h, onServerRequest_of_exited c id r hs]

theorem queuesLifecycle_receive {c : Client Context} {body : List UInt8} {id : RequestId}
    {outcome : Except ResponseError Json}
    (h : Incoming.decode body = .ok (.response id outcome)) :
    QueuesLifecycle c (c.receive body).2 := by
  rw [receive_of_response h]
  exact queuesLifecycle_onResponse c id outcome

/-- What each kind of body queues. A request is answered by one message, which is an object with
the version, the id of the request and either a result or an error; a request for settings is
answered with a value for each of its items, in their order. All else queues nothing, or only
messages of the lifecycle. -/
theorem receive_replies (c : Client Context) (body : List UInt8) :
    (∀ e id method, (Source.read? body).bind Incoming.readEnvelope? = some e → e.id = some id →
      e.method = some method →
      Incoming.decode body = .ok (.request id (ServerRequest.decode method e.params))) ∧
    match Incoming.decode body with
    | .ok (.request id r) =>
      c.state ≠ .exited →
        ∃ m outcome value,
          (c.receive body).2.outbound = c.outbound ++ [m] ∧ m.Answers body id outcome value ∧
          ∀ items, r = .configuration items → outcome = "result" ∧
            (∃ asked, Incoming.requested? body = some (.arr asked) ∧
              List.Forall₂ (fun j item => ConfigurationItem.decode j = .ok item) asked items) ∧
            value = .array (items.map fun item =>
              (configurationValue c.options.settings item).source)
    | .ok (.response _ _) =>
      ∃ queued, (c.receive body).2.outbound = c.outbound ++ queued ∧
        ∀ m ∈ queued, m.IsLifecycle
    | .ok (.notification _) => (c.receive body).2.outbound = c.outbound
    | .error _ => (c.receive body).2.outbound = c.outbound := by
  refine ⟨fun e id method => Incoming.decode_of_envelope, ?_⟩
  cases h : Incoming.decode body with
  | error e => exact congrArg outbound (receive_of_error h)
  | ok m =>
    cases m with
    | notification note => exact congrArg outbound (receive_of_notification h)
    | response id outcome => exact queuesLifecycle_receive h
    | request id r =>
      intro hs
      refine ⟨_, _, _, outbound_receive_request h hs, Outgoing.answers_reply h _, ?_⟩
      rintro items rfl
      refine ⟨rfl, Incoming.requested?_of_configuration h, ?_⟩
      show (Json.arr _).source = _
      rw [Json.source, Json.sourceItems_eq_map, List.map_map]
      rfl

/-- A server asks for two settings, under an id that is a text. -/
def askSettings : List UInt8 :=
  (Json.obj
    [("id", .str "q"), ("method", .str Method.configuration),
      ("params", .obj [("items", .arr [.obj [("section", .str "a.b")], .obj []])])]).toBytes

theorem receive_replies_settings :
    let c : Client Unit := { Client.new default with state := .initializing }
    (∃ e, (Source.read? askSettings).bind Incoming.readEnvelope? = some e ∧
      e.id = some (.text "q") ∧ e.method = some Method.configuration ∧
      Incoming.decode askSettings =
        .ok (.request (.text "q") (ServerRequest.decode Method.configuration e.params))) ∧
    Incoming.decode askSettings =
      .ok (.request (.text "q") (.configuration [⟨none, some "a.b"⟩, ⟨none, none⟩])) ∧
    c.state ≠ .exited ∧
    (∃ asked, Incoming.requested? askSettings = some (.arr asked) ∧ asked.length = 2) ∧
    ∃ m, (c.receive askSettings).2.outbound = [m] ∧
      Source.read? m.body = some (.object [(some "jsonrpc", .text (some "2.0")),
        (some "id", .text (some "q")), (some "result", .array [.null, .null])]) := by
  intro c
  have hdecode : Incoming.decode askSettings =
      .ok (.request (.text "q") (.configuration [⟨none, some "a.b"⟩, ⟨none, none⟩])) := by
    decide +kernel
  have henvelope : ((Source.read? askSettings).bind Incoming.readEnvelope?).map
      (fun e => (e.id, e.method)) = some (some (.text "q"), some Method.configuration) := by
    decide +kernel
  obtain ⟨e, he, hfields⟩ := Option.map_eq_some_iff.1 henvelope
  obtain ⟨hid, hmethod⟩ := Prod.mk.inj hfields
  have hreplies := receive_replies c askSettings
  rw [hdecode] at hreplies
  obtain ⟨hmethods, hreply⟩ := hreplies
  obtain ⟨m, outcome, value, hqueue, hanswers, hitems⟩ := hreply (by decide)
  obtain ⟨rfl, ⟨asked, hasked, hrequested⟩, rfl⟩ := hitems _ rfl
  exact ⟨⟨e, he, hid, hmethod, hdecode.trans (hmethods e _ _ he hid hmethod)⟩, hdecode, by decide,
    ⟨asked, hasked, hrequested.length_eq⟩, m, hqueue, hanswers.read⟩

end Client

/-! ## Runs -/

namespace ClientTrace

variable {Context : Type}

/-- The id of the request that a call takes in, unless the client has exited. -/
def asks? (t : ClientTrace Context) : ClientCall Context → Option RequestId
  | .receive body =>
    match Incoming.decode body with
    | .ok (.request id _) => if t.client.state = .exited then none else some id
    | _ => none
  | _ => none

/-- The ids of the requests that come in during a run before the client has exited. -/
def asked (t : ClientTrace Context) : List (ClientCall Context) → List RequestId
  | [] => []
  | call :: calls => (t.asks? call).toList ++ (t.step call).asked calls

def replied (t : ClientTrace Context) : List RequestId :=
  t.sent.filterMap Outgoing.replyId?

theorem replyIds_lifecycle {queued : List Outgoing} (h : ∀ m ∈ queued, m.IsLifecycle) :
    queued.filterMap Outgoing.replyId? = [] := by
  rw [List.filterMap_eq_nil_iff]
  intro m hm
  cases m with
  | reply id outcome => exact (h _ hm).elim
  | _ => rfl

/-- Only a body that is taken in queues a reply. -/
theorem replied_call (t : ClientTrace Context) {call : ClientCall Context}
    (hc : ∀ body, call ≠ .receive body) : (t.step call).replied = t.replied := by
  cases call with
  | connect processId =>
    by_cases hs : t.client.state = .uninitialized
    · simp [replied, sent, step, Client.connect_of_uninitialized _ _ hs, Outgoing.replyId?]
    · simp only [replied, sent, step, Client.connect_of_ne _ _ hs]
  | request method params context =>
    by_cases hs : t.client.state = .running
    · simp [replied, sent, step, Client.request_of_running _ _ _ _ hs, Outgoing.replyId?]
    · simp only [replied, sent, step, Client.request_of_ne _ _ _ _ hs]
  | notify method params =>
    by_cases hs : t.client.state = .running
    · simp [replied, sent, step, Client.notify_of_running _ _ _ hs, Outgoing.replyId?]
    · simp only [replied, sent, step, Client.notify_of_ne _ _ _ hs]
  | shutdown =>
    rcases t.client.shutdown_cases with ⟨-, h⟩ | ⟨-, h⟩ | ⟨-, h⟩
    · simp only [replied, sent, step, h]
    · simp [replied, sent, step, h, Client.stopping, Outgoing.replyId?]
    · simp only [replied, sent, step, h]
  | exit =>
    by_cases hs : t.client.state = .exited
    · simp only [replied, sent, step, Client.exit_of_exited _ hs]
    · simp [replied, sent, step, Client.exit_of_ne _ hs, Outgoing.replyId?]
  | takeOutbound => simp [replied, sent, step, Client.takeOutbound]
  | receive body => exact absurd rfl (hc body)

theorem replied_receive (t : ClientTrace Context) (body : List UInt8) :
    (t.step (.receive body)).replied = t.replied ++ (t.asks? (.receive body)).toList := by
  show (t.taken ++ (t.client.receive body).2.outbound).filterMap Outgoing.replyId? = _
  cases h : Incoming.decode body with
  | error e => simp [Client.receive_of_error h, replied, sent, asks?, h]
  | ok m =>
    cases m with
    | notification note => simp [Client.receive_of_notification h, replied, sent, asks?, h]
    | response id outcome =>
      obtain ⟨queued, houtbound, hlifecycle⟩ := Client.queuesLifecycle_receive (c := t.client) h
      simp [houtbound, replyIds_lifecycle hlifecycle, replied, sent, asks?, h]
    | request id r =>
      by_cases hs : t.client.state = .exited
      · simp [Client.outbound_receive_request_exited h hs, replied, sent, asks?, h, hs]
      · simp [Client.outbound_receive_request h hs, replied, sent, asks?, h, hs,
          Outgoing.replyId?]

theorem step_replies (t : ClientTrace Context) (call : ClientCall Context) :
    (t.step call).replied = t.replied ++ (t.asks? call).toList := by
  cases call with
  | receive body => exact replied_receive t body
  | _ => simp [replied_call t, asks?]

/-- In a run, the requests that came in before the client exited are answered, each of them once
and in their order, and nothing else is. -/
theorem run_replies (t : ClientTrace Context) (calls : List (ClientCall Context)) :
    (t.run calls).replied = t.replied ++ t.asked calls := by
  induction calls generalizing t with
  | nil => rw [asked, List.append_nil]; rfl
  | cons call calls ih =>
    rw [asked, ← List.append_assoc, ← step_replies]
    exact ih (t.step call)

end ClientTrace

end LanguageClient
