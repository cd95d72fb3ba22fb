import LanguageClient.Proofs.Client.Lifecycle

/-!
# Registrations over a run

A server registers capabilities while the connection lasts, and each request
to do so is answered with success. What is registered stays until a request
takes it back (`Revokes`) or until the handshake ends (`Greets`): the answer to
`initialize` puts the registrations of the handshake in the place of all that
is there, so a registration that came before it is lost.

* `registry_step`: what one call does to a registration that is there.
* `run_keeps_registration`: exactly which runs keep a registration.
* `not_greets_of_later`: once a connection has got past the handshake, no body
  ends one.
-/
namespace LanguageClient

variable {Context : Type}

/-! ## Registrations that are there -/

namespace Registry

/-- A registration that was asked for is there afterwards. -/
theorem mem_register {reg : Registry} {requests : List RegistrationRequest}
    {q : RegistrationRequest} (hq : q ∈ requests) :
    granted q ∈ (reg.register requests).registrations :=
  List.mem_append_right _ (List.mem_map_of_mem hq)

theorem mem_register_of_mem {reg : Registry} (requests : List RegistrationRequest)
    {r : Registration} (hr : r ∈ reg.registrations) : r ∈ (reg.register requests).registrations :=
  List.mem_append_left _ hr

/-- Taking back removes what is named and nothing else, of all that was registered dynamically. -/
theorem mem_unregister_iff {reg : Registry} (requests : List UnregistrationRequest)
    {r : Registration} (hr : r ∈ reg.registrations) (hd : r.source = .dynamic) :
    r ∈ (reg.unregister requests).registrations ↔ ∀ u ∈ requests, u.names r = false := by
  simp [unregister, stays, hr, hd]

/-- All registrations of the handshake have it as their source. -/
theorem source_of_mem_ofHandshake {capabilities : Json} {languageIds : List String}
    {r : Registration} (hr : r ∈ (ofHandshake capabilities languageIds).registrations) :
    r.source = .handshake := by
  have hoffered : ∀ method options, (offered method options).source = .handshake :=
    fun _ _ => rfl
  rcases List.mem_append.1 hr with h | h
  · simp only [syncRegistrations, List.mem_append] at h
    rcases h with (h | h) | h <;> split at h <;>
      simp only [List.mem_cons, List.not_mem_nil, or_false] at h
    · rcases h with rfl | rfl <;> exact hoffered _ _
    · rw [h]; exact hoffered _ _
    · rw [h]; exact hoffered _ _
  · obtain ⟨⟨method, flag⟩, -, h⟩ := List.mem_filterMap.1 h
    obtain ⟨value, -, h⟩ := Option.bind_eq_some_iff.1 h
    rw [← Option.some.inj h]
    exact hoffered _ _

/-- What a registration covers is supported while it is there. -/
theorem supports_of_mem {reg : Registry} {r : Registration} (hr : r ∈ reg.registrations)
    {languageId : String} {path : Option String} (hc : r.covers languageId path = true) :
    reg.supports r.method languageId path = true := by
  simp only [supports, options?, Option.isSome_map, List.find?_isSome]
  exact ⟨r, hr, by simp [hc]⟩

end Registry

/-! ## What a body does to them -/

namespace Client

/-- A body ends the handshake: it is an answer, and not an error, to an `initialize` that waits. -/
def Greets (c : Client Context) (body : List UInt8) : Prop :=
  ∃ id result p, Incoming.decode body = .ok (.response id (.ok result)) ∧
    id.number?.bind c.pending? = some p ∧ p.method = Method.start

/-- A body takes a registration back: it names its id and its method. -/
def Revokes (r : Registration) (body : List UInt8) : Prop :=
  ∃ id requests, Incoming.decode body = .ok (.request id (.unregisterCapability requests)) ∧
    ∃ u ∈ requests, u.id = r.id ∧ u.method = r.method

theorem registry_shutdown (c : Client Context) : c.shutdown.registry = c.registry := by
  rcases c.shutdown_cases with ⟨-, he⟩ | ⟨-, he⟩ | ⟨-, he⟩
  · rw [he]
  · rw [he]; rfl
  · rw [he]

theorem registry_exit (c : Client Context) : c.exit.registry = c.registry := by
  by_cases hs : c.state = .exited
  · rw [exit_of_exited c hs]
  · rw [exit_of_ne c hs]

theorem registry_finishHandshake (c : Client Context) (result : Json) :
    (c.finishHandshake result).2.registry =
      Registry.ofHandshake ((result.get? "capabilities").getD .null) c.options.languageIds := by
  obtain ⟨-, ⟨-, he⟩ | ⟨-, he⟩⟩ := c.finishHandshake_cases result <;> rw [he] <;> rfl

theorem registry_onServerRequest (c : Client Context) (id : RequestId) (q : ServerRequest) :
    (c.onServerRequest id q).2.registry = registryAfter c.registry q := by
  by_cases hs : c.state = .exited
  · rw [onServerRequest_of_exited c id q hs]
  · rw [onServerRequest_of_ne c id q hs]

variable {c : Client Context} {r : Registration} {body : List UInt8}

/-- A request of the server keeps a registration unless it takes it back. -/
theorem mem_registryAfter_iff {id : RequestId} {q : ServerRequest}
    (hbody : Incoming.decode body = .ok (.request id q)) (hr : r ∈ c.registry.registrations)
    (hd : r.source = .dynamic) :
    r ∈ (registryAfter c.registry q).registrations ↔ ¬ Revokes r body := by
  have hother : (∀ requests, q ≠ .unregisterCapability requests) → ¬ Revokes r body := by
    rintro hq ⟨id', requests, hbody', -⟩
    rw [hbody] at hbody'
    cases hbody'
    exact hq requests rfl
  cases q with
  | unregisterCapability requests =>
    rw [registryAfter, Registry.mem_unregister_iff requests hr hd]
    constructor
    · rintro hn ⟨id', requests', hbody', u, hu, hnames⟩
      rw [hbody] at hbody'
      cases hbody'
      have := hn u hu
      simp [UnregistrationRequest.names, hnames] at this
    · intro hn u hu
      refine Bool.eq_false_iff.2 fun hnames => hn ⟨id, requests, hbody, u, hu, ?_⟩
      simpa [UnregistrationRequest.names] using hnames
  | registerCapability requests =>
    exact iff_of_true (Registry.mem_register_of_mem requests hr) (hother (by simp))
  | _ => exact iff_of_true hr (hother (by simp))

/-- The answer to a request keeps a registration unless it ends the handshake. -/
theorem mem_registry_onResponse_iff {id : RequestId} {outcome : Except ResponseError Json}
    (hbody : Incoming.decode body = .ok (.response id outcome))
    (hr : r ∈ c.registry.registrations) (hd : r.source = .dynamic) :
    r ∈ (c.onResponse id outcome).2.registry.registrations ↔ ¬ c.Greets body := by
  have hother : (∀ result p, outcome = .ok result → id.number?.bind c.pending? = some p →
      p.method ≠ Method.start) → ¬ c.Greets body := by
    rintro hn ⟨id', result, p, hbody', hp, hm⟩
    rw [hbody] at hbody'
    cases hbody'
    exact hn result p rfl hp hm
  cases hp : id.number?.bind c.pending? with
  | none =>
    rw [onResponse_of_none outcome hp]
    exact iff_of_true hr (hother (by simp [hp]))
  | some p =>
    rw [onResponse_of_some outcome hp]
    rcases (c.without p).settle_cases p outcome with
      ⟨result, hm, ho, he⟩ | ⟨e, -, ho, he⟩ | ⟨hm, he⟩ | ⟨result, hm, -, -, he⟩ | ⟨e, -, -, ho, he⟩
    · rw [he, registry_finishHandshake]
      refine iff_of_false (fun h => ?_) (not_not_intro ⟨id, result, p, ho ▸ hbody, hp, hm⟩)
      rw [Registry.source_of_mem_ofHandshake h] at hd
      cases hd
    · rw [he, registry_exit]
      exact iff_of_true hr (hother (by simp [ho]))
    · rw [he, registry_exit]
      refine iff_of_true hr (hother fun _ q _ hq => ?_)
      rw [hp] at hq
      cases hq
      rw [hm]
      exact Lifecycle.shutdown_distinct.1
    · rw [he]
      refine iff_of_true hr (hother fun _ q _ hq => ?_)
      rw [hp] at hq
      cases hq
      exact hm
    · rw [he]
      exact iff_of_true hr (hother (by simp [ho]))

/-- A body keeps a registration unless it ends the handshake or takes it back. -/
theorem mem_registry_receive_iff (hr : r ∈ c.registry.registrations) (hd : r.source = .dynamic) :
    r ∈ (c.receive body).2.registry.registrations ↔ ¬ c.Greets body ∧ ¬ Revokes r body := by
  have hgreets : (∀ id outcome, Incoming.decode body ≠ .ok (.response id outcome)) →
      ¬ c.Greets body := fun hn ⟨id, result, _, hbody, _⟩ => hn id (.ok result) hbody
  have hrevokes : (∀ id q, Incoming.decode body ≠ .ok (.request id q)) → ¬ Revokes r body :=
    fun hn ⟨id, requests, hbody, _⟩ => hn id (.unregisterCapability requests) hbody
  cases hbody : Incoming.decode body with
  | error e =>
    rw [receive_of_error hbody]
    exact iff_of_true hr ⟨hgreets (by simp [hbody]), hrevokes (by simp [hbody])⟩
  | ok m =>
    cases m with
    | response id outcome =>
      rw [receive_of_response hbody, mem_registry_onResponse_iff hbody hr hd]
      exact (and_iff_left (hrevokes (by simp [hbody]))).symm
    | request id q =>
      rw [receive_of_request hbody, registry_onServerRequest, mem_registryAfter_iff hbody hr hd]
      exact (and_iff_right (hgreets (by simp [hbody]))).symm
    | notification note =>
      rw [receive_of_notification hbody]
      exact iff_of_true hr ⟨hgreets (by simp [hbody]), hrevokes (by simp [hbody])⟩

end Client

/-! ## Runs -/

namespace ClientTrace

variable {t : ClientTrace Context} {r : Registration}

/-- Only bodies that are taken in change what is registered. -/
theorem registry_step (t : ClientTrace Context) {call : ClientCall Context}
    (hc : ∀ body, call ≠ .receive body) : (t.step call).client.registry = t.client.registry := by
  cases call with
  | connect processId =>
    by_cases hs : t.client.state = .uninitialized
    · simp only [step, Client.connect_of_uninitialized _ _ hs]
    · simp only [step, Client.connect_of_ne _ _ hs]
  | request method params context =>
    by_cases hs : t.client.state = .running
    · simp only [step, Client.request_of_running _ _ _ _ hs]
    · simp only [step, Client.request_of_ne _ _ _ _ hs]
  | notify method params =>
    by_cases hs : t.client.state = .running
    · simp only [step, Client.notify_of_running _ _ _ hs]
    · simp only [step, Client.notify_of_ne _ _ _ hs]
  | shutdown => exact t.client.registry_shutdown
  | exit => exact t.client.registry_exit
  | takeOutbound => rfl
  | receive body => exact absurd rfl (hc body)

/-- One call keeps a registration unless a body ends the handshake or takes it back. -/
theorem mem_registry_step {call : ClientCall Context}
    (hr : r ∈ t.client.registry.registrations) (hd : r.source = .dynamic)
    (hc : ∀ body, call = .receive body → ¬ t.client.Greets body ∧ ¬ Client.Revokes r body) :
    r ∈ (t.step call).client.registry.registrations := by
  by_cases hb : ∃ body, call = .receive body
  · obtain ⟨body, rfl⟩ := hb
    exact (Client.mem_registry_receive_iff hr hd).2 (hc body rfl)
  · rw [registry_step t fun body he => hb ⟨body, he⟩]
    exact hr

theorem mem_registry_run (calls : List (ClientCall Context)) :
    ∀ {t : ClientTrace Context}, r ∈ t.client.registry.registrations → r.source = .dynamic →
      (∀ pre body, pre ++ [.receive body] <+: calls →
        ¬ (t.run pre).client.Greets body ∧ ¬ Client.Revokes r body) →
      r ∈ (t.run calls).client.registry.registrations := by
  induction calls with
  | nil => exact fun hr _ _ => hr
  | cons call calls ih =>
    intro t hr hd hall
    refine ih (mem_registry_step hr hd ?_) hd ?_
    · rintro body rfl
      exact hall [] body (by simp)
    · intro pre body hpre
      exact hall (call :: pre) body (List.cons_prefix_cons.2 ⟨rfl, hpre⟩)

/-- A registration that is there stays all over a run exactly if no body in it ends the handshake
or takes it back. -/
theorem mem_registry_run_iff (hr : r ∈ t.client.registry.registrations) (hd : r.source = .dynamic)
    (calls : List (ClientCall Context)) :
    (∀ pre, pre <+: calls → r ∈ (t.run pre).client.registry.registrations) ↔
      ∀ pre body, pre ++ [.receive body] <+: calls →
        ¬ (t.run pre).client.Greets body ∧ ¬ Client.Revokes r body := by
  constructor
  · intro hall pre body hpre
    have hbefore := hall pre ((List.prefix_append _ _).trans hpre)
    have hafter := hall _ hpre
    rw [run_append] at hafter
    exact (Client.mem_registry_receive_iff hbefore hd).1 hafter
  · intro hall pre hpre
    exact mem_registry_run pre hr hd fun pre' body hpre' => hall pre' body (hpre'.trans hpre)

/-! ## Past the handshake -/

/-- Behind the handshake no request that waits is an `initialize`. -/
theorem not_greets_of_later {before : List Outgoing} {c : Client Context}
    (h : Lifecycle.Stage before c) (hs : ClientState.running.rank ≤ c.state.rank)
    (body : List UInt8) : ¬ c.Greets body := by
  rintro ⟨id, result, p, -, hp, hm⟩
  obtain ⟨n, -, hn⟩ := Option.bind_eq_some_iff.1 hp
  obtain ⟨hi, -⟩ := (Lifecycle.waiting_state h (Client.id_of_pending? hn).2).2 hm
  rw [hi] at hs
  exact absurd hs (by decide)

/-- **Registrations last.** A registration that a server asks for before the exit is granted. It
stays, and what it covers stays supported, over exactly those runs in which no later body takes it
back or ends the handshake; and if it comes behind the handshake, no later body ends one. -/
theorem run_keeps_registration (options : ClientOptions) (calls more : List (ClientCall Context))
    {body : List UInt8} {id : RequestId} {requests : List RegistrationRequest}
    {q : RegistrationRequest} (hbody : Incoming.decode body = .ok
      (.request id (.registerCapability requests))) (hq : q ∈ requests)
    (hstate : ((start options).run calls).client.state ≠ .exited) :
    let t := (start options).run calls
    let t' := t.step (.receive body)
    t'.sent = t.sent ++ [.reply id (.ok .null)] ∧
      ((∀ later, later <+: more →
          Registry.granted q ∈ (t'.run later).client.registry.registrations ∧
          ∀ languageId path, (Registry.granted q).covers languageId path = true →
            (t'.run later).client.registry.supports q.method languageId path = true) ↔
        ∀ later body', later ++ [.receive body'] <+: more →
          ¬ (t'.run later).client.Greets body' ∧ ¬ Client.Revokes (Registry.granted q) body') ∧
      ((∀ call ∈ calls ++ more, Lifecycle.IsUserCall call) →
        t.client.state = .running ∨ t.client.state = .shuttingDown →
        ∀ later body', later ++ [.receive body'] <+: more →
          ¬ (t'.run later).client.Greets body') := by
  intro t t'
  have he : t'.client = { t.client with
      registry := t.client.registry.register requests
      outbound := t.client.outbound ++ [.reply id (.ok .null)] } := by
    have := Client.onServerRequest_of_ne t.client id (.registerCapability requests) hstate
    simp [t', step, Client.receive, hbody, this, Client.registryAfter, Client.answer]
  have hr : Registry.granted q ∈ t'.client.registry.registrations := by
    rw [he]
    exact Registry.mem_register hq
  refine ⟨?_, ?_, ?_⟩
  · simp only [sent, he]
    exact (List.append_assoc ..).symm
  · rw [← mem_registry_run_iff hr rfl more]
    refine ⟨fun h later hl => (h later hl).1, fun h later hl => ⟨h later hl, ?_⟩⟩
    exact fun languageId path hc => Registry.supports_of_mem (h later hl) hc
  · intro hu hs later body' hl
    have hcalls := Lifecycle.run_moves (t := start options) (Lifecycle.stage_new options) calls
      fun call hc => hu call (List.mem_append_left _ hc)
    have hstep := Lifecycle.step_moves hcalls.stage (.receive body) trivial
    have hlater := Lifecycle.run_moves hstep.stage later fun call hc =>
      hu call (List.mem_append_right _ (hl.subset (List.mem_append_left _ hc)))
    have hrank := Nat.le_trans hstep.rank hlater.rank
    refine not_greets_of_later hlater.stage (Nat.le_trans ?_ hrank) _
    rcases hs with hs | hs
    · exact Nat.le_of_eq (congrArg ClientState.rank hs.symm)
    · rw [hs]
      decide

/-- A server asks for hover requests about documents of a language. -/
def askHover : List UInt8 :=
  (Json.obj
    [("jsonrpc", .str "2.0"), ("id", .int 7), ("method", .str Method.registerCapability),
      ("params", .obj [("registrations", .arr [.obj
        [("id", .str "r1"), ("method", .str Method.hover),
          ("registerOptions", .obj
            [("documentSelector", .arr [.obj [("language", .str "python")]])])]])])]).toBytes

def hoverRequest : RegistrationRequest :=
  ⟨"r1", Method.hover, some (.obj
    [("documentSelector", .arr [.obj [("language", .str "python")]])])⟩

theorem decode_askHover : Incoming.decode askHover =
    .ok (.request (.number 7) (.registerCapability [hoverRequest])) := by
  decide +kernel

/-- The answer of a server that has no capabilities to the first request. -/
def greeting : List UInt8 :=
  (Outgoing.reply (.number 1) (.ok (.obj [("capabilities", .obj [])]))).body

theorem run_keeps_registration_hover :
    let t := (start default : ClientTrace Unit).run [.connect 1, .receive greeting]
    Incoming.decode askHover = .ok (.request (.number 7) (.registerCapability [hoverRequest])) ∧
      hoverRequest ∈ [hoverRequest] ∧ t.client.state ≠ .exited ∧
      ((t.step (.receive askHover)).run [.receive greeting]).client.registry.supports
        Method.hover "python" none = true := by
  have hstate : ((start default : ClientTrace Unit).run
      [.connect 1, .receive greeting]).client.state = .running := by decide +kernel
  have hgreeting : Incoming.decode greeting =
      .ok (.response (.number 1) (.ok (.obj [("capabilities", .obj [])]))) := by decide +kernel
  obtain ⟨-, hstays, hgreets⟩ := run_keeps_registration (default : ClientOptions)
    [.connect 1, .receive greeting] [.receive greeting] decode_askHover (List.mem_singleton_self _)
    (by rw [hstate]; decide)
  refine ⟨decode_askHover, List.mem_singleton_self _, by rw [hstate]; decide, ?_⟩
  refine (hstays.2 (fun later body hl => ⟨hgreets ?_ (.inl hstate) later body hl, ?_⟩)
    [.receive greeting] (List.prefix_refl _)).2 "python" none (by decide +kernel)
  · simp [Lifecycle.IsUserCall]
  · rintro ⟨id, requests, hrevokes, -⟩
    have hm : .receive body ∈ [ClientCall.receive greeting] := hl.subset (by simp)
    obtain rfl : body = greeting := by simpa using hm
    rw [hgreeting] at hrevokes
    cases hrevokes

/-- A registration that comes before the answer to `initialize` is granted, and lost with it. -/
theorem registration_lost :
    let t := (start default : ClientTrace Unit).run [.connect 1, .receive askHover]
    t.sent.getLast? = some (.reply (.number 7) (.ok .null)) ∧
      t.client.registry.supports Method.hover "python" none = true ∧
      (t.step (.receive greeting)).client.state = .running ∧
      (t.step (.receive greeting)).client.registry.supports Method.hover "python" none = false := by
  decide +kernel

end ClientTrace

end LanguageClient
