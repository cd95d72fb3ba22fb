import LanguageClient.Proofs.Client.Registrations
import LanguageClient.Proofs.Session.Service

/-!
# What a pump does to a session

A pump may change what the server can do, but then it leaves word of it
(`Wakes`). It may end the session, but then it tears it down.

* `wakes_pump`: a pump, over any connection.
* `live_pump`: a session that runs still runs behind a pump, or is torn down.
* `idle_pump`, `idle_kill`: nothing waits in the client between operations.
-/
namespace LanguageClient

/-! ## News -/

/-- Whether an event says that the server may be able to do other things than before. -/
def ClientEvent.isNews {Context : Type} : ClientEvent Context → Bool
  | initialized _ => true
  | capabilitiesChanged => true
  | _ => false

namespace Client

variable {Context : Type} (c : Client Context)

theorem state_exit : c.exit.state = .exited := by
  by_cases hs : c.state = .exited
  · rw [c.exit_of_exited hs, hs]
  · rw [c.exit_of_ne hs]

theorem state_onServerRequest (id : RequestId) (r : ServerRequest) :
    (c.onServerRequest id r).2.state = c.state := by
  by_cases hs : c.state = .exited
  · rw [c.onServerRequest_of_exited id r hs]
  · rw [c.onServerRequest_of_ne id r hs]

/-- A request brings news if it has to do with the registry. -/
theorem onServerRequest_news (id : RequestId) (r : ServerRequest) :
    (c.onServerRequest id r).1.any ClientEvent.isNews = true ∨
      (c.onServerRequest id r).2.registry = c.registry := by
  rw [registry_onServerRequest]
  cases r with
  | registerCapability requests => exact .inl rfl
  | unregisterCapability requests => exact .inl rfl
  | _ => exact .inr rfl

/-- A body brings news, or leaves the registry alone and does not make the client run. -/
theorem receive_news (body : List UInt8) :
    (c.receive body).1.any ClientEvent.isNews = true ∨
      ((c.receive body).2.registry = c.registry ∧
        ((c.receive body).2.state = .running → c.state = .running)) := by
  rcases c.receive_cases body with ⟨id, outcome, -, he⟩ | ⟨id, r, -, he⟩ | ⟨-, he, -⟩
  · rw [he]
    cases hp : id.number?.bind c.pending? with
    | none => rw [onResponse_of_none outcome hp]; exact .inr ⟨rfl, fun h => h⟩
    | some p =>
      rw [onResponse_of_some outcome hp]
      rcases (c.without p).settle_cases p outcome with
        ⟨result, -, -, he⟩ | ⟨e, -, -, he⟩ | ⟨-, he⟩ | ⟨result, -, -, -, he⟩ | ⟨e, -, -, -, he⟩ <;>
        rw [he]
      · left
        rw [((c.without p).finishHandshake_cases result).1]
        rfl
      · exact .inr ⟨registry_exit _, fun h => by rw [state_exit] at h; cases h⟩
      · exact .inr ⟨registry_exit _, fun h => by rw [state_exit] at h; cases h⟩
      · exact .inr ⟨rfl, fun h => h⟩
      · exact .inr ⟨rfl, fun h => h⟩
  · rw [he]
    rcases c.onServerRequest_news id r with hn | hr
    · exact .inl hn
    · exact .inr ⟨hr, by rw [state_onServerRequest]; exact fun h => h⟩
  · exact .inr ⟨by rw [he], by rw [he]; exact fun h => h⟩

/-- No body ends the running of a client: what waits then are requests of the user. -/
theorem receive_running {c : Client Context} {before : List Outgoing}
    (h : Lifecycle.Stage before c) (hs : c.state = .running) (body : List UInt8) :
    (c.receive body).2.state = .running := by
  obtain ⟨-, waits, -⟩ := h.live_of_ne (by rw [hs]; simp)
  rw [hs] at waits
  rcases c.receive_cases body with ⟨id, outcome, -, he⟩ | ⟨id, r, -, he⟩ | ⟨-, he, -⟩
  · rw [he]
    cases hp : id.number?.bind c.pending? with
    | none => rw [onResponse_of_none outcome hp]; exact hs
    | some p =>
      obtain ⟨n, -, hn⟩ := Option.bind_eq_some_iff.1 hp
      have hu : Lifecycle.IsUser p.method := waits p (id_of_pending? hn).2
      rw [onResponse_of_some outcome hp]
      rcases (c.without p).settle_cases p outcome with
        ⟨-, hm, -, -⟩ | ⟨-, hm, -, -⟩ | ⟨hm, -⟩ | ⟨result, -, -, -, he⟩ | ⟨e, -, -, -, he⟩
      · exact absurd hm hu.1
      · exact absurd hm hu.1
      · exact absurd hm hu.2.2.1
      · rw [he]; exact hs
      · rw [he]; exact hs
  · rw [he, state_onServerRequest]
    exact hs
  · rw [he]
    exact hs

end Client

namespace Session

/-- What taking things in may do to a session: the server may come to want other documents, but
not without word of it. -/
structure Wakes (s s' : Session) : Prop where
  news : s'.capabilitiesChanged = true ∨ ∀ d, s'.handles d = true → s.handles d = true
  stays : s.capabilitiesChanged = true → s'.capabilitiesChanged = true

variable {s s' s'' : Session}

theorem Wakes.trans (h : Wakes s s') (h' : Wakes s' s'') : Wakes s s'' where
  news := by
    rcases h'.news with hn' | hn'
    · exact .inl hn'
    rcases h.news with hn | hn
    · exact .inl (h'.stays hn)
    · exact .inr fun d hd => hn d (hn' d hd)
  stays hc := h'.stays (h.stays hc)

theorem Wakes.of_client (hc : s'.client.registry = s.client.registry)
    (hs : s'.state = .running → s.state = .running)
    (hn : s'.capabilitiesChanged = s.capabilitiesChanged) : Wakes s s' where
  news := by
    refine .inr fun d hd => ?_
    simp only [handles, supports, Client.isRunning, hc, Bool.and_eq_true, decide_eq_true_eq]
      at hd ⊢
    exact ⟨hs hd.1, hd.2⟩
  stays h := hn.trans h

theorem Steady.wakes (h : Steady s s') : Wakes s s' :=
  .of_client h.registry (fun hs => h.state ▸ hs) h.capabilitiesChanged

theorem onEvent_news (s : Session) (visible : String → Bool)
    (event : ClientEvent RequestContext) :
    (s.onEvent visible event).2.client = s.client ∧
      (s.onEvent visible event).2.capabilitiesChanged =
        (s.capabilitiesChanged || event.isNews) := by
  cases event with
  | initialized capabilities => exact ⟨rfl, by simp [onEvent, ClientEvent.isNews]⟩
  | capabilitiesChanged => exact ⟨rfl, by simp [onEvent, ClientEvent.isNews]⟩
  | response id method result context =>
    cases context with
    | none => exact ⟨rfl, by simp [onEvent, ClientEvent.isNews]⟩
    | some context =>
      simp only [onEvent, onAnswer, ClientEvent.isNews, Bool.or_false]
      repeat' split
      all_goals exact ⟨rfl, rfl⟩
  | error id method e => exact ⟨rfl, by simp [onEvent, ClientEvent.isNews]⟩
  | notification note =>
    simp only [onEvent, onNotification, ClientEvent.isNews, Bool.or_false]
    repeat' split
    all_goals exact ⟨rfl, rfl⟩
  | exited => exact ⟨rfl, by simp [onEvent, ClientEvent.isNews]⟩

theorem onEvents_news (visible : String → Bool) (events : List (ClientEvent RequestContext)) :
    ∀ s : Session, (s.onEvents visible events).2.client = s.client ∧
      (s.onEvents visible events).2.capabilitiesChanged =
        (s.capabilitiesChanged || events.any ClientEvent.isNews) := by
  induction events with
  | nil =>
    intro s
    exact ⟨rfl, by simp [onEvents]⟩
  | cons event events ih =>
    intro s
    obtain ⟨hc, hn⟩ := s.onEvent_news visible event
    obtain ⟨hc', hn'⟩ := ih (s.onEvent visible event).2
    exact ⟨hc'.trans hc, by
      rw [List.any_cons, ← Bool.or_assoc, ← hn]
      exact hn'⟩

theorem wakes_onBody (s : Session) (visible : String → Bool) (body : List UInt8) :
    Wakes s (s.onBody visible body).2 := by
  obtain ⟨hc, hn⟩ := onEvents_news visible (s.client.receive body).1
    { s with client := (s.client.receive body).2 }
  rcases s.client.receive_news body with hnews | ⟨hr, hs⟩
  · have hchanged : (s.onBody visible body).2.capabilitiesChanged = true := by
      refine hn.trans ?_
      rw [hnews, Bool.or_true]
    exact ⟨.inl hchanged, fun _ => hchanged⟩
  · have hregistry : (s.onBody visible body).2.client.registry = s.client.registry := by
      rw [← hr]
      exact congrArg Client.registry hc
    have hstate : (s.onBody visible body).2.state = .running → s.state = .running := by
      intro h
      refine hs ?_
      rw [← h]
      exact congrArg Client.state hc.symm
    have hchanged : s.capabilitiesChanged = true →
        (s.onBody visible body).2.capabilitiesChanged = true := by
      intro h
      refine hn.trans ?_
      rw [show s.capabilitiesChanged = true from h, Bool.true_or]
    refine ⟨.inr fun d hd => ?_, hchanged⟩
    simp only [handles, supports, Client.isRunning, hregistry, Bool.and_eq_true,
      decide_eq_true_eq] at hd ⊢
    exact ⟨hstate hd.1, hd.2⟩

theorem wakes_takeIn (visible : String → Bool) (most : Nat) :
    ∀ s : Session, Wakes s (takeIn visible most s).2.2 := by
  induction most with
  | zero =>
    intro s
    exact (Steady.refl s).wakes
  | succ most ih =>
    intro s
    unfold takeIn
    split
    · exact (Steady.refl s).wakes
    · exact .of_client (Client.registry_exit _)
        (fun hs => by rw [state, Client.state_exit] at hs; cases hs) rfl
    · rename_i f connection _
      have hs : Wakes s { s with connection := connection } := .of_client rfl id rfl
      exact (hs.trans (wakes_onBody _ visible f.body)).trans (ih _)

theorem wakes_tearDown (s : Session) (now : Nat) : Wakes s (s.tearDown now) :=
  (s.steady_flush now).wakes.trans (.of_client rfl id rfl)

/-- A pump lets nobody want more documents without word of it. -/
theorem wakes_pump (s : Session) (visible : String → Bool) (now : Nat) :
    Wakes s (s.pump visible now).2.2 := by
  unfold pump
  split
  · exact (Steady.refl s).wakes
  · have h := (wakes_takeIn visible s.connection.inbound.length s).trans
      (steady_flush _ now).wakes
    simp only
    split
    · exact h.trans (wakes_tearDown _ now)
    · split
      · exact h
      · exact h.trans (.of_client rfl id rfl)

/-! ## Who runs stays alive -/

theorem live_takeIn (visible : String → Bool) (most : Nat) :
    ∀ s : Session, Lifecycle.Stage s.sent s.client → s.state = .running →
      (takeIn visible most s).2.2.state = .running ∨
        (takeIn visible most s).2.2.state = .exited := by
  induction most with
  | zero =>
    intro s _ hs
    exact .inl hs
  | succ most ih =>
    intro s hstage hs
    unfold takeIn
    split
    · exact .inl hs
    · exact .inr (Client.state_exit _)
    · rename_i f connection _
      refine ih _ ((carries_onBody { s with connection := connection } visible f.body).stage hstage)
        ?_
      have hc := (onEvents_news visible (s.client.receive f.body).1
        { s with connection := connection, client := (s.client.receive f.body).2 }).1
      exact (congrArg Client.state hc).trans (Client.receive_running hstage hs f.body)

/-- A session that runs still runs after a pump, or is torn down. -/
theorem live_pump {s : Session} (hstage : Lifecycle.Stage s.sent s.client)
    (hs : s.state = .running) (visible : String → Bool) (now : Nat) :
    (s.pump visible now).2.2.state = .running ∨ (s.pump visible now).2.2.tornDown = true := by
  unfold pump
  split
  · rename_i ht
    exact .inr ht
  · have hlive := live_takeIn visible s.connection.inbound.length s hstage hs
    have hflush := ((takeIn visible s.connection.inbound.length s).2.2.steady_flush now).state
    simp only
    split
    · exact .inr rfl
    · rename_i hx
      left
      have hrun := hlive.resolve_right fun h => hx (hflush.trans h)
      split <;> exact hflush.trans hrun

/-! ## Nothing waits between operations -/

theorem idle_pump {s : Session} (h : s.client.outbound = []) (visible : String → Bool)
    (now : Nat) : (s.pump visible now).2.2.client.outbound = [] := by
  unfold pump
  split
  · exact h
  simp only
  split
  · exact idle_flush ..
  · split <;> exact idle_flush ..

theorem idle_kill {s : Session} (h : s.client.outbound = []) (now : Nat) :
    (s.kill now).client.outbound = [] := by
  unfold kill
  split
  · exact h
  · exact idle_flush ..

end Session

end LanguageClient
