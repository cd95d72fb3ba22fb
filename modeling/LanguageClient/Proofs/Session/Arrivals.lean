import LanguageClient.Proofs.Session.Unheard

/-!
# What a pump takes in

A pump takes the bodies of the frames that wait, up to the end of the stream,
and is through with one before it looks at the next. What becomes of them
does not depend on the connection, so a pump is `onBodies` and what follows
when nothing waits any more.

* `takeIn_cases`: the loop that takes things in is `onBodies`.
* `pump_cases`: what a pump leaves of the session that has taken all in.
-/
namespace LanguageClient

namespace Connection

/-- The bodies of the frames in a queue that come before the end of the stream. -/
def bodies : List Inbound → List (List UInt8)
  | .frame f :: rest => f.body :: bodies rest
  | .closed :: _ => []
  | [] => []

/-- The bodies that the owner receives when it takes at most as many items as given. -/
def waiting (c : Connection) (most : Nat) : List (List UInt8) :=
  if c.readClosed then [] else bodies (c.inbound.take most)

end Connection

def Client.receiveAll {Context : Type} (c : Client Context) (bodies : List (List UInt8)) :
    Client Context :=
  bodies.foldl (fun c body => (c.receive body).2) c

namespace Session

def onBodies (visible : String → Bool) : List (List UInt8) → Session → List HostCall × Session
  | [], s => ([], s)
  | body :: bodies, s =>
    ((s.onBody visible body).1 ++ (onBodies visible bodies (s.onBody visible body).2).1,
      (onBodies visible bodies (s.onBody visible body).2).2)

/-! ## The connection is not looked at -/

theorem onEvent_connection (s : Session) (visible : String → Bool)
    (event : ClientEvent RequestContext) (connection : Connection) :
    ({ s with connection := connection } : Session).onEvent visible event =
      ((s.onEvent visible event).1,
        { (s.onEvent visible event).2 with connection := connection }) := by
  cases event with
  | response id method result context =>
    cases context with
    | none => rfl
    | some context =>
      simp only [onEvent, onAnswer]
      repeat' split
      all_goals rfl
  | notification note =>
    cases note with
    | logMessage kind text =>
      simp only [onEvent, onNotification]
      split <;> rfl
    | _ => rfl
  | _ => rfl

theorem onEvents_connection (visible : String → Bool)
    (events : List (ClientEvent RequestContext)) (connection : Connection) :
    ∀ s : Session, ({ s with connection := connection } : Session).onEvents visible events =
      ((s.onEvents visible events).1,
        { (s.onEvents visible events).2 with connection := connection }) := by
  induction events with
  | nil => exact fun s => rfl
  | cons event events ih =>
    intro s
    simp only [onEvents, onEvent_connection, ih]

theorem onBody_connection (s : Session) (visible : String → Bool) (body : List UInt8)
    (connection : Connection) :
    ({ s with connection := connection } : Session).onBody visible body =
      ((s.onBody visible body).1, { (s.onBody visible body).2 with connection := connection }) :=
  onEvents_connection visible (s.client.receive body).1 connection
    { s with client := (s.client.receive body).2 }

theorem onBodies_connection (visible : String → Bool) (bodies : List (List UInt8))
    (connection : Connection) :
    ∀ s : Session, onBodies visible bodies { s with connection := connection } =
      ((onBodies visible bodies s).1,
        { (onBodies visible bodies s).2 with connection := connection }) := by
  induction bodies with
  | nil => exact fun s => rfl
  | cons body bodies ih =>
    intro s
    simp only [onBodies, onBody_connection, ih]

/-! ## What taking in leaves alone -/

/-- Events change what the session has heard, and neither its client nor what it is. -/
structure Hears (s s' : Session) : Prop where
  name : s'.name = s.name
  connection : s'.connection = s.connection
  client : s'.client = s.client
  schedule : s'.schedule = s.schedule
  completion : s'.completion = s.completion
  tornDown : s'.tornDown = s.tornDown
  sent : s'.sent = s.sent

theorem Hears.refl (s : Session) : Hears s s :=
  ⟨rfl, rfl, rfl, rfl, rfl, rfl, rfl⟩

theorem Hears.trans {s s' s'' : Session} (h : Hears s s') (h' : Hears s' s'') : Hears s s'' where
  name := h'.name.trans h.name
  connection := h'.connection.trans h.connection
  client := h'.client.trans h.client
  schedule := h'.schedule.trans h.schedule
  completion := h'.completion.trans h.completion
  tornDown := h'.tornDown.trans h.tornDown
  sent := h'.sent.trans h.sent

theorem hears_onEvent (s : Session) (visible : String → Bool)
    (event : ClientEvent RequestContext) : Hears s (s.onEvent visible event).2 := by
  cases event with
  | response id method result context =>
    cases context with
    | none => exact .refl s
    | some context =>
      simp only [onEvent, onAnswer]
      repeat' split
      all_goals exact ⟨rfl, rfl, rfl, rfl, rfl, rfl, rfl⟩
  | notification note =>
    cases note with
    | logMessage kind text =>
      simp only [onEvent, onNotification]
      split <;> exact ⟨rfl, rfl, rfl, rfl, rfl, rfl, rfl⟩
    | _ => exact ⟨rfl, rfl, rfl, rfl, rfl, rfl, rfl⟩
  | _ => exact ⟨rfl, rfl, rfl, rfl, rfl, rfl, rfl⟩

theorem hears_onEvents (visible : String → Bool) (events : List (ClientEvent RequestContext)) :
    ∀ s : Session, Hears s (s.onEvents visible events).2 := by
  induction events with
  | nil => exact fun s => .refl s
  | cons event events ih => exact fun s => (s.hears_onEvent visible event).trans (ih _)

theorem hears_onBody (s : Session) (visible : String → Bool) (body : List UInt8) :
    Hears { s with client := (s.client.receive body).2 } (s.onBody visible body).2 :=
  hears_onEvents visible (s.client.receive body).1 { s with client := (s.client.receive body).2 }

theorem hears_onBodies (visible : String → Bool) (bodies : List (List UInt8)) :
    ∀ s : Session, Hears { s with client := s.client.receiveAll bodies }
      (onBodies visible bodies s).2 := by
  induction bodies with
  | nil => exact fun s => .refl s
  | cons body bodies ih =>
    intro s
    have hbody := s.hears_onBody visible body
    have hrest := ih (s.onBody visible body).2
    refine ⟨hrest.name.trans hbody.name, hrest.connection.trans hbody.connection, ?_,
      hrest.schedule.trans hbody.schedule, hrest.completion.trans hbody.completion,
      hrest.tornDown.trans hbody.tornDown, hrest.sent.trans hbody.sent⟩
    exact hrest.client.trans (congrArg (Client.receiveAll · bodies) hbody.client)

/-! ## The loop -/

/-- Taking things in is taking in the bodies that wait; at the end of the stream the client
exits. -/
theorem takeIn_cases (visible : String → Bool) (most : Nat) :
    ∀ s : Session, ∃ connection,
      (takeIn visible most s).2 = ((onBodies visible (s.connection.waiting most) s).1,
        { (onBodies visible (s.connection.waiting most) s).2 with connection := connection }) ∨
      (takeIn visible most s).2 = ((onBodies visible (s.connection.waiting most) s).1,
        { (onBodies visible (s.connection.waiting most) s).2 with
          connection := connection
          client := (onBodies visible (s.connection.waiting most) s).2.client.exit }) := by
  induction most with
  | zero =>
    intro s
    refine ⟨s.connection, .inl ?_⟩
    simp [takeIn, Connection.waiting, Connection.bodies, onBodies]
  | succ most ih =>
    intro s
    cases hr : s.connection.readClosed with
    | true =>
      refine ⟨s.connection, .inl ?_⟩
      simp [takeIn, Connection.tryReceive, Connection.waiting, hr, onBodies]
    | false =>
      have hopen : ¬s.connection.readClosed = true := by simp [hr]
      cases hi : s.connection.inbound with
      | nil =>
        refine ⟨s.connection, .inl ?_⟩
        simp [takeIn, Connection.tryReceive, Connection.waiting, hr, hi, Connection.bodies,
          onBodies]
      | cons item rest =>
        cases item with
        | closed =>
          refine ⟨{ s.connection with inbound := rest, readClosed := true }, .inr ?_⟩
          simp [takeIn, Connection.tryReceive, Connection.waiting, hr, hi, Connection.bodies,
            onBodies]
        | frame f =>
          -- the next item is received over a connection that the session itself does not see
          have hreceive : s.connection.tryReceive =
              (some (.frame f), { s.connection with inbound := rest }) := by
            rw [Connection.tryReceive, if_neg hopen, hi]
          have hw : s.connection.waiting (most + 1) =
              f.body :: ({ s.connection with inbound := rest } : Connection).waiting most := by
            rw [Connection.waiting, if_neg hopen, hi, Connection.waiting, if_neg hopen]
            rfl
          obtain ⟨connection, hrest⟩ := ih
            { (s.onBody visible f.body).2 with connection := { s.connection with inbound := rest } }
          refine ⟨connection, ?_⟩
          simp only [onBodies_connection] at hrest
          rw [takeIn, hreceive, hw]
          simp only [onBody_connection, onBodies]
          refine hrest.imp (fun h => ?_) fun h => ?_
          all_goals
            obtain ⟨hcalls, hsession⟩ := Prod.ext_iff.1 h
            exact Prod.ext (congrArg (_ ++ ·) hcalls) hsession

/-! ## Pumping -/

/-- The bodies that a pump takes in. -/
def arrivals (s : Session) : List (List UInt8) :=
  if s.tornDown then [] else s.connection.waiting s.connection.inbound.length

/-- The session that has taken in all that waits, and the calls to the host. -/
def taken (s : Session) (visible : String → Bool) : List HostCall × Session :=
  onBodies visible s.arrivals s

theorem pump_of_tornDown {s : Session} (hs : s.tornDown = true) (visible : String → Bool)
    (now : Nat) : s.pump visible now = (0, [], s) := by
  rw [pump, if_pos hs]

/-- A pump takes all in. Behind that the session hears nothing more, and it may be torn down, of
which the host is told last. -/
theorem pump_cases {s : Session} (hs : s.tornDown = false) (visible : String → Bool) (now : Nat) :
    ∃ t, Unheard (fun _ => False) (s.taken visible).2 t ∧ t.tornDown = false ∧
      ((s.pump visible now).2 = ((s.taken visible).1, t) ∨
        ∃ name, (s.pump visible now).2 =
          ((s.taken visible).1 ++ [.exited name], t.tearDown now)) := by
  have htaken : s.taken visible = onBodies visible
      (s.connection.waiting s.connection.inbound.length) s := by
    simp [taken, arrivals, hs]
  have htorn : (s.taken visible).2.tornDown = false :=
    (hears_onBodies visible s.arrivals s).tornDown.trans hs
  obtain ⟨t, hunheard, ht, hpump⟩ : ∃ t, Unheard (fun _ => False) (s.taken visible).2 t ∧
      t.tornDown = false ∧
      (takeIn visible s.connection.inbound.length s).2 = ((s.taken visible).1, t) := by
    obtain ⟨connection, he | he⟩ := takeIn_cases visible s.connection.inbound.length s
    · rw [← htaken] at he
      exact ⟨{ (s.taken visible).2 with connection := connection },
        ⟨rfl, rfl, fun _ hp _ => .inl hp⟩, htorn, he⟩
    · rw [← htaken] at he
      exact ⟨{ (s.taken visible).2 with
          connection := connection
          client := (s.taken visible).2.client.exit },
        ⟨rfl, rfl, fun _ hp _ => .inl (mem_pending_exit hp)⟩, htorn, he⟩
  have hflush : Unheard (fun _ => False) (s.taken visible).2 (t.flush now).2 :=
    hunheard.trans (t.unheard_flush now)
  have htf : (t.flush now).2.tornDown = false := (t.steady_flush now).tornDown.trans ht
  unfold pump
  rw [if_neg (by simp [hs])]
  simp only [hpump]
  split
  · exact ⟨_, hflush, htf, .inr ⟨_, rfl⟩⟩
  · split
    · exact ⟨_, hflush, htf, .inl rfl⟩
    · exact ⟨{ (t.flush now).2 with schedule := (t.flush now).2.schedule.fired now },
        ⟨hflush.diagnostics, hflush.cache, hflush.pending⟩, htf, .inl rfl⟩

end Session

end LanguageClient
