import LanguageClient.Connection
import LanguageClient.Proofs.Frame.Arrival

/-!
# What passes over a connection

The owner of a connection, its two loops and the peer act in any order
(`Move`). What each has given and got is kept beside the connection
(`Exchange`). The loops are taken apart further than into their steps: the
read loop stops the write loop some time after it has left its last item, and
a frame gets to the peer piece by piece.

* `connection_arrive`, `exists_moves_settle`: what a connection does is made of
  moves.
* `Writes`: what was queued, and what of it the peer has got.
* `Stops`: who has stopped the write loop.
* `Delivers`: what came from the peer, and what of it the owner has received.
* `run_exchange`: nothing is lost, reordered or duplicated, either way.
-/
namespace LanguageClient

namespace Connection

open FrameReader

variable {c : Connection}

/-- Until the owner has been told that nothing more comes in, it is given what came in first. -/
theorem tryReceive_of_open (h : c.readClosed = false) :
    c.tryReceive = (c.inbound.head?, { c with
      inbound := c.inbound.tail
      readClosed := decide (c.inbound.head? = some .closed) }) := by
  obtain ⟨policy, stream, isReading, inbound, outbound, written, isWriting, isHeard, readClosed,
    stopped⟩ := c
  obtain rfl : readClosed = false := h
  rcases inbound with _ | ⟨f | _, rest⟩ <;> rfl

/-- A frame is taken if the owner has not closed the connection and the write loop runs. -/
theorem send_of_open (hstopped : c.stopped = false) (hwriting : c.isWriting = true)
    (bytes : List UInt8) :
    c.send bytes = (true, { c with outbound := c.outbound ++ [.frame bytes] }) := by
  rw [send, if_neg (by simp [hstopped, hwriting])]

/-- A frame that is not taken changes nothing. -/
theorem send_of_refused (h : c.stopped = true ∨ c.isWriting = false) (bytes : List UInt8) :
    c.send bytes = (false, c) := by
  rw [send, if_pos (by simpa using h)]

/-- What a step of the read loop does. -/
theorem readStep?_cases (h : c.isReading = true) :
    (∃ f rest, readFrame c.policy c.stream = .frame f rest ∧
      c.readStep? = some { c with stream := rest, inbound := c.inbound ++ [.frame f] }) ∨
    (∃ e rest, readFrame c.policy c.stream = .failed e rest ∧ e.isFatal = false ∧
      c.readStep? = some { c with stream := rest }) ∨
    (∃ rest, Ends c.policy c.stream ∧ rest.ended = c.stream.ended ∧
      c.readStep? = some { c with stream := rest }.endReading) ∨
    (readFrame c.policy c.stream = .starved ∧ c.readStep? = none) := by
  have htakes := takes_readFrame c.policy c.stream
  unfold readStep?
  rw [if_pos h]
  cases hread : readFrame c.policy c.stream with
  | frame f rest => exact .inl ⟨f, rest, rfl, rfl⟩
  | failed e rest =>
    rw [hread] at htakes
    cases hfatal : e.isFatal with
    | true =>
      exact .inr (.inr (.inl ⟨rest, .inr ⟨e, rest, hread, hfatal⟩, htakes.2, by simp [hfatal]⟩))
    | false => exact .inr (.inl ⟨e, rest, rfl, hfatal, by simp [hfatal]⟩)
  | finished rest =>
    rw [hread] at htakes
    exact .inr (.inr (.inl ⟨rest, .inl ⟨rest, hread⟩, htakes.2, rfl⟩))
  | starved => exact .inr (.inr (.inr ⟨rfl, rfl⟩))

theorem readStep?_of_ended (h : c.isReading = false) : c.readStep? = none := by
  rw [readStep?, if_neg (by rw [h]; exact Bool.false_ne_true)]

/-- A step of the read loop writes nothing. If it is the last, the write loop is stopped. -/
structure ReadStep (c c' : Connection) : Prop where
  isHeard : c'.isHeard = c.isHeard
  written : c'.written = c.written
  isWriting : c'.isWriting = c.isWriting
  stopped : c'.stopped = c.stopped
  outbound : (c'.isReading = true ∧ c'.outbound = c.outbound) ∨
    (c'.isReading = false ∧ c'.outbound = c.outbound ++ [.stop])

theorem readStep_of_some {c' : Connection} (h : c.readStep? = some c') : ReadStep c c' := by
  cases hr : c.isReading with
  | false =>
    rw [readStep?_of_ended hr] at h
    cases h
  | true =>
    rcases readStep?_cases hr with
      ⟨f, rest, -, he⟩ | ⟨e, rest, -, -, he⟩ | ⟨rest, -, -, he⟩ | ⟨-, he⟩ <;>
      rw [he] at h <;> cases h
    · exact ⟨rfl, rfl, rfl, rfl, .inl ⟨hr, rfl⟩⟩
    · exact ⟨rfl, rfl, rfl, rfl, .inl ⟨hr, rfl⟩⟩
    · exact ⟨rfl, rfl, rfl, rfl, .inr ⟨rfl, rfl⟩⟩

/-- What a step of the write loop does to a peer that takes what is written. -/
theorem writeStep?_cases (hheard : c.isHeard = true) (h : c.isWriting = true) :
    (c.outbound = [] ∧ c.writeStep? = none) ∨
    (∃ bytes rest, c.outbound = .frame bytes :: rest ∧
      c.writeStep? = some { c with outbound := rest, written := c.written ++ [bytes] }) ∨
    (∃ rest, c.outbound = .stop :: rest ∧
      c.writeStep? = some { c with outbound := [], isWriting := false }) := by
  unfold writeStep?
  rw [if_pos h]
  rcases ho : c.outbound with _ | ⟨bytes | _, rest⟩
  · exact .inl ⟨rfl, rfl⟩
  · exact .inr (.inl ⟨bytes, rest, rfl, by simp only [if_pos hheard]⟩)
  · exact .inr (.inr ⟨rest, rfl, rfl⟩)

theorem writeStep?_of_ended (h : c.isWriting = false) : c.writeStep? = none := by
  rw [writeStep?, if_neg (by rw [h]; exact Bool.false_ne_true)]

/-- A step of the write loop takes at least one item of its queue. -/
theorem writeStep?_shortens {c' : Connection} (h : c.writeStep? = some c') :
    c'.outbound.length < c.outbound.length := by
  unfold writeStep? at h
  split at h
  · rcases ho : c.outbound with _ | ⟨bytes | _, rest⟩ <;> rw [ho] at h
    · cases h
    · simp only at h
      split at h <;> cases h <;> simp
    · cases h
      simp
  · cases h

/-- A step of the write loop reads nothing. -/
structure WriteStep (c c' : Connection) : Prop where
  policy : c'.policy = c.policy
  stream : c'.stream = c.stream
  isReading : c'.isReading = c.isReading
  inbound : c'.inbound = c.inbound
  readClosed : c'.readClosed = c.readClosed
  stopped : c'.stopped = c.stopped

theorem writeStep_of_some {c' : Connection} (h : c.writeStep? = some c') : WriteStep c c' := by
  unfold writeStep? at h
  repeat' split at h
  all_goals cases h
  all_goals exact ⟨rfl, rfl, rfl, rfl, rfl, rfl⟩

end Connection

namespace Stream

variable {s : Stream}

theorem arrive_eq_grow (h : s.ended = false) (chunk : Chunk) :
    s.arrive chunk = s.grow [chunk] false := by
  rw [arrive, grow, h]

theorem close_eq_grow (s : Stream) : s.close = s.grow [] true := by
  rw [close, grow, List.append_nil]

theorem close_of_ended (s : Stream) (h : s.ended = true) : s.close = s := by
  rw [close, ← h]

end Stream

/-- The frames in a queue that come before the first stop. -/
def Outbound.beforeStop : List Outbound → List (List UInt8)
  | .frame bytes :: rest => bytes :: beforeStop rest
  | .stop :: _ => []
  | [] => []

theorem Outbound.beforeStop_append (frames : List (List UInt8)) (rest : List Outbound) :
    beforeStop (frames.map .frame ++ rest) = frames ++ beforeStop rest := by
  induction frames with
  | nil => rfl
  | cons bytes frames ih => exact congrArg (bytes :: ·) ih

/-! ## Moves -/

/-- What happens at a connection whose peer takes all that is written to it. -/
inductive Move where
  /-- Bytes come from the peer, or a fault. -/
  | arrive (chunk : Chunk)
  | hangUp
  | send (bytes : List UInt8)
  | receive
  | close
  /-- The read loop takes a step. When it ends, it has yet to stop the write loop. -/
  | read
  /-- The read loop, which has ended, stops the write loop. -/
  | stop
  /-- The write loop takes the next item of its queue. -/
  | write
  /-- At most so many bytes of the frame that is being written get to the peer. -/
  | put (most : Nat)

/-- A connection with all that passed over it. -/
structure Exchange where
  connection : Connection
  /-- What the write loop has taken and the peer has not got. -/
  unsent : List UInt8
  /-- Whether the read loop has ended and has yet to stop the write loop. -/
  stopDue : Bool
  /-- All that came from the peer, as nobody has read of it. -/
  came : Stream
  /-- All that was put into the queue of the write loop. -/
  queued : List Outbound
  /-- What the owner has received. -/
  received : List Inbound
  /-- What the peer has got. -/
  wire : List UInt8

namespace Exchange

def opened (policy : MissingLength) : Exchange :=
  ⟨.opened policy, [], false, .fresh, [], [], []⟩

def step (t : Exchange) : Move → Exchange
  | .arrive chunk =>
    if t.connection.stream.ended then t
    else
      { t with
        connection := { t.connection with stream := t.connection.stream.arrive chunk }
        came := t.came.arrive chunk }
  | .hangUp => { t with connection := t.connection.hangUp, came := t.came.close }
  | .send bytes =>
    { t with
      connection := (t.connection.send bytes).2
      queued := t.queued ++ if (t.connection.send bytes).1 then [.frame bytes] else [] }
  | .receive =>
    { t with
      connection := t.connection.tryReceive.2
      received := t.received ++ t.connection.tryReceive.1.toList }
  | .close =>
    { t with
      connection := t.connection.close
      queued := t.queued ++ if t.connection.stopped then [] else [.stop] }
  | .read =>
    match t.connection.readStep? with
    | none => t
    | some c =>
      { t with
        connection := { c with outbound := t.connection.outbound }
        stopDue := !c.isReading }
  | .stop =>
    if t.stopDue then
      { t with
        connection := { t.connection with outbound := t.connection.outbound ++ [.stop] }
        stopDue := false
        queued := t.queued ++ [.stop] }
    else t
  | .write =>
    if t.unsent.isEmpty then
      match t.connection.writeStep? with
      | none => t
      | some c =>
        { t with
          connection := c
          unsent := (c.written.drop t.connection.written.length).flatten }
    else t
  | .put most => { t with unsent := t.unsent.drop most, wire := t.wire ++ t.unsent.take most }

def run (t : Exchange) (moves : List Move) : Exchange :=
  moves.foldl step t

theorem run_append (t : Exchange) (moves more : List Move) :
    t.run (moves ++ more) = (t.run moves).run more :=
  List.foldl_append

/-! ## What a connection does, in moves -/

theorem connection_arrive (t : Exchange) (bytes : List UInt8) :
    (t.step (.arrive (.bytes bytes))).connection = t.connection.arrive bytes := by
  unfold step Connection.arrive
  simp only
  split <;> rfl

/-- Neither loop is in the middle of a step. -/
structure Rests (t : Exchange) : Prop where
  stopDue : t.stopDue = false
  unsent : t.unsent = []

variable {t t' : Exchange}

/-- A step of the read loop is reading, and stopping the write loop. -/
theorem Rests.read (h : t.Rests) :
    (t.run [.read, .stop]).connection = t.connection.readStep?.getD t.connection ∧
      (t.run [.read, .stop]).Rests := by
  simp only [run, List.foldl_cons, List.foldl_nil]
  cases he : t.connection.readStep? with
  | none =>
    simp only [step, he, h.stopDue, Bool.false_eq_true, if_false]
    exact ⟨rfl, h⟩
  | some c =>
    rcases (Connection.readStep_of_some he).outbound with ⟨hr, ho⟩ | ⟨hr, ho⟩ <;>
      simp only [step, he, hr, Bool.not_true, Bool.not_false, Bool.false_eq_true, if_false,
        if_true, ← ho] <;>
      exact ⟨by rw [← hr]; rfl, rfl, h.unsent⟩

/-- A step of the write loop is taking an item, and getting all of it to the peer. -/
theorem Rests.write (h : t.Rests) : ∃ moves,
    (t.run moves).connection = t.connection.writeStep?.getD t.connection ∧
      (t.run moves).Rests := by
  refine ⟨[.write, .put (t.step .write).unsent.length], ?_, ?_, List.drop_length⟩ <;>
    simp only [run, List.foldl_cons, List.foldl_nil, step, h.unsent, List.isEmpty_nil, if_true] <;>
    cases t.connection.writeStep? <;> first | rfl | exact h.stopDue

theorem exists_moves_repeatStep {step? : Connection → Option Connection}
    (hstep : ∀ t : Exchange, t.Rests → ∃ moves,
      (t.run moves).connection = (step? t.connection).getD t.connection ∧ (t.run moves).Rests)
    (fuel : Nat) : ∀ t : Exchange, t.Rests → ∃ moves,
      (t.run moves).connection = Connection.repeatStep step? fuel t.connection ∧
        (t.run moves).Rests := by
  induction fuel with
  | zero => exact fun t h => ⟨[], rfl, h⟩
  | succ fuel ih =>
    intro t h
    unfold Connection.repeatStep
    cases he : step? t.connection with
    | none => exact ⟨[], rfl, h⟩
    | some c =>
      obtain ⟨moves, hc, hrests⟩ := hstep t h
      obtain ⟨more, hc', hrests'⟩ := ih _ hrests
      refine ⟨moves ++ more, ?_, by rw [run_append]; exact hrests'⟩
      rw [run_append, hc', hc, he]
      rfl

/-- Letting both loops run until they wait is making moves. -/
theorem exists_moves_settle (h : t.Rests) :
    ∃ moves, (t.run moves).connection = t.connection.settle ∧ (t.run moves).Rests := by
  obtain ⟨moves, hc, hrests⟩ := exists_moves_repeatStep (fun t h => ⟨_, h.read⟩)
    (t.connection.stream.size + 1) t h
  obtain ⟨more, hc', hrests'⟩ := exists_moves_repeatStep (fun t h => h.write)
    ((t.run moves).connection.outbound.length + 1) _ hrests
  refine ⟨moves ++ more, ?_, by rw [run_append]; exact hrests'⟩
  rw [run_append, hc', hc]
  rfl

/-! ## From the owner to the peer -/

/-- What was queued is what the write loop took and what it has yet to take. When it has ended, what
it took stands before a stop. The peer has got all of that but what is unsent. -/
structure Writes (t : Exchange) : Prop where
  heard : t.connection.isHeard = true
  wire : t.wire ++ t.unsent = t.connection.written.flatten
  writing : t.connection.isWriting = true →
    t.queued = t.connection.written.map .frame ++ t.connection.outbound
  written : t.connection.isWriting = false →
    t.unsent = [] ∧ ∃ rest, t.queued = t.connection.written.map .frame ++ .stop :: rest

/-- Some items are put into the queue, and nothing is written. -/
theorem Writes.queue (h : t.Writes) (items : List Outbound)
    (hheard : t'.connection.isHeard = t.connection.isHeard)
    (hwritten : t'.connection.written = t.connection.written)
    (hwriting : t'.connection.isWriting = t.connection.isWriting)
    (houtbound : t'.connection.outbound = t.connection.outbound ++ items)
    (hqueued : t'.queued = t.queued ++ items) (hwire : t'.wire = t.wire)
    (hunsent : t'.unsent = t.unsent) : t'.Writes where
  heard := hheard.trans h.heard
  wire := by rw [hwire, hunsent, hwritten, h.wire]
  writing hw := by
    rw [hqueued, hwritten, houtbound, h.writing (hwriting ▸ hw), List.append_assoc]
  written hw := by
    obtain ⟨hu, rest, hrest⟩ := h.written (hwriting ▸ hw)
    exact ⟨hunsent.trans hu, rest ++ items, by rw [hqueued, hwritten, hrest, List.append_assoc,
      List.cons_append]⟩

theorem writes_opened (policy : MissingLength) : (opened policy).Writes :=
  ⟨rfl, rfl, fun _ => rfl, fun h => by cases h⟩

theorem Writes.write (h : t.Writes) : (t.step .write).Writes := by
  unfold step
  simp only
  split <;> rename_i hu
  · rw [List.isEmpty_iff] at hu
    cases hw : t.connection.isWriting with
    | false =>
      rw [Connection.writeStep?_of_ended hw]
      exact h
    | true =>
      have hqueued := h.writing hw
      rcases Connection.writeStep?_cases h.heard hw with
        ⟨-, he⟩ | ⟨bytes, rest, ho, he⟩ | ⟨rest, ho, he⟩ <;> rw [he]
      · exact h
      · refine ⟨h.heard, ?_, fun _ => ?_, fun hx => absurd (hw.symm.trans hx) (by simp)⟩
        · have hwire := h.wire
          rw [hu, List.append_nil] at hwire
          simp [hwire]
        · rw [hqueued, ho]
          simp
      · refine ⟨h.heard, ?_, fun hx => (by cases hx), fun _ => ⟨by simp, rest, ?_⟩⟩
        · have hwire := h.wire
          rw [hu] at hwire
          simpa using hwire
        · rw [hqueued, ho]
  · exact h

theorem Writes.step (h : t.Writes) (move : Move) : (t.step move).Writes := by
  cases move with
  | arrive chunk =>
    unfold Exchange.step
    simp only
    split
    · exact h
    · exact h.queue [] rfl rfl rfl (List.append_nil _).symm (List.append_nil _).symm rfl rfl
  | hangUp => exact h.queue [] rfl rfl rfl (List.append_nil _).symm (List.append_nil _).symm rfl rfl
  | send bytes =>
    unfold Exchange.step Connection.send
    simp only
    split
    · exact h.queue [] rfl rfl rfl (List.append_nil _).symm rfl rfl rfl
    · exact h.queue [.frame bytes] rfl rfl rfl rfl rfl rfl rfl
  | receive =>
    unfold Exchange.step Connection.tryReceive
    simp only
    repeat' split
    all_goals
      exact h.queue [] rfl rfl rfl (List.append_nil _).symm (List.append_nil _).symm rfl rfl
  | close =>
    unfold Exchange.step Connection.close
    simp only
    split
    · exact h.queue [] rfl rfl rfl (List.append_nil _).symm rfl rfl rfl
    · exact h.queue [.stop] rfl rfl rfl rfl rfl rfl rfl
  | read =>
    cases he : t.connection.readStep? with
    | none =>
      simp only [Exchange.step, he]
      exact h
    | some c =>
      have hstep := Connection.readStep_of_some he
      simp only [Exchange.step, he]
      exact h.queue [] hstep.isHeard hstep.written hstep.isWriting (List.append_nil _).symm
        (List.append_nil _).symm rfl rfl
  | stop =>
    unfold Exchange.step
    simp only
    split
    · exact h.queue [.stop] rfl rfl rfl rfl rfl rfl rfl
    · exact h
  | write => exact h.write
  | put most =>
    refine ⟨h.heard, ?_, h.writing, fun hw => ?_⟩
    · have hwire := h.wire
      rw [← List.take_append_drop most t.unsent, ← List.append_assoc] at hwire
      exact hwire
    · obtain ⟨hu, hrest⟩ := h.written hw
      exact ⟨by simp [Exchange.step, hu], hrest⟩

/-- What the peer has got is a beginning of what was queued before the first stop. If the write
loop waits or has ended, it is all of that. -/
theorem Writes.wire_begins (h : t.Writes) :
    t.wire <+: (Outbound.beforeStop t.queued).flatten ∧
      (t.unsent = [] → t.connection.writeStep? = none →
        t.wire = (Outbound.beforeStop t.queued).flatten) := by
  have hwire := h.wire
  cases hw : t.connection.isWriting with
  | true =>
    have hqueued : Outbound.beforeStop t.queued =
        t.connection.written ++ Outbound.beforeStop t.connection.outbound := by
      rw [h.writing hw, Outbound.beforeStop_append]
    rw [hqueued, List.flatten_append, ← hwire]
    refine ⟨(List.prefix_append ..).trans (List.prefix_append ..), fun hu hnone => ?_⟩
    rcases Connection.writeStep?_cases h.heard hw with ⟨ho, -⟩ | ⟨_, _, -, he⟩ | ⟨_, -, he⟩
    · simp [hu, ho, Outbound.beforeStop]
    · rw [he] at hnone
      cases hnone
    · rw [he] at hnone
      cases hnone
  | false =>
    obtain ⟨hu, rest, hrest⟩ := h.written hw
    have hqueued : Outbound.beforeStop t.queued = t.connection.written := by
      rw [hrest, Outbound.beforeStop_append]
      exact List.append_nil _
    rw [hu, List.append_nil] at hwire
    rw [hqueued, ← hwire]
    exact ⟨List.prefix_refl _, fun _ _ => rfl⟩

/-- Who stopped the write loop: its owner, by closing the connection, or the read loop, which has
ended. -/
structure Stops (t : Exchange) : Prop where
  due : t.stopDue = true → t.connection.isReading = false
  stops : .stop ∈ t.queued ↔
    t.connection.stopped = true ∨ t.connection.isReading = false ∧ t.stopDue = false

theorem stops_opened (policy : MissingLength) : (opened policy).Stops :=
  ⟨fun h => (by cases h), by simp [opened, Connection.opened]⟩

/-- A move by which nobody stops the write loop. -/
theorem Stops.of_eq (h : t.Stops) (hdue : t'.stopDue = t.stopDue)
    (hreading : t'.connection.isReading = t.connection.isReading)
    (hstopped : t'.connection.stopped = t.connection.stopped)
    (hqueued : .stop ∈ t'.queued ↔ .stop ∈ t.queued) : t'.Stops where
  due := by rw [hdue, hreading]; exact h.due
  stops := by rw [hqueued, hstopped, hreading, hdue]; exact h.stops

theorem Stops.read (h : t.Stops) : (t.step .read).Stops := by
  cases he : t.connection.readStep? with
  | none =>
    simp only [Exchange.step, he]
    exact h
  | some c =>
    have hreading : t.connection.isReading = true := by
      cases hr : t.connection.isReading with
      | true => rfl
      | false =>
        rw [Connection.readStep?_of_ended hr] at he
        cases he
    have hstep := Connection.readStep_of_some he
    have hstops : .stop ∈ t.queued ↔ t.connection.stopped = true := by simp [h.stops, hreading]
    simp only [Exchange.step, he]
    exact ⟨fun hdue => by simpa using hdue, by simp [hstops, hstep.stopped]⟩

theorem Stops.step (h : t.Stops) (move : Move) : (t.step move).Stops := by
  cases move with
  | read => exact h.read
  | stop =>
    unfold Exchange.step
    simp only
    split <;> rename_i hdue
    · exact ⟨fun hx => (by cases hx), by simp [h.due hdue]⟩
    · exact h
  | close =>
    unfold Exchange.step Connection.close
    simp only
    split <;> rename_i hstopped
    · exact h.of_eq rfl rfl rfl (by simp)
    · exact ⟨h.due, by simp⟩
  | send bytes =>
    unfold Exchange.step Connection.send
    simp only
    split
    · exact h.of_eq rfl rfl rfl (by simp)
    · exact h.of_eq rfl rfl rfl (by simp)
  | receive =>
    unfold Exchange.step Connection.tryReceive
    simp only
    repeat' split
    all_goals exact h.of_eq rfl rfl rfl .rfl
  | write =>
    unfold Exchange.step
    simp only
    split
    · cases he : t.connection.writeStep? with
      | none => exact h
      | some c =>
        have hstep := Connection.writeStep_of_some he
        exact h.of_eq rfl hstep.isReading hstep.stopped .rfl
    · exact h
  | arrive chunk =>
    unfold Exchange.step
    simp only
    split
    · exact h
    · exact h.of_eq rfl rfl rfl .rfl
  | hangUp => exact h.of_eq rfl rfl rfl .rfl
  | put most => exact h.of_eq rfl rfl rfl .rfl

/-! ## From the peer to the owner -/

open FrameReader

/-- What the read loop leaves behind the frames. -/
def ending (isReading : Bool) : List Inbound :=
  if isReading then [] else [.closed]

/-- What the owner received and what waits for it are the frames that were read of what came, and
behind them `closed` if the read loop has ended. -/
structure Delivers (policy : MissingLength) (t : Exchange) : Prop where
  agreed : t.connection.policy = policy
  ended : t.connection.stream.ended = t.came.ended
  reads : ∃ fs s, Reads policy t.came fs s ∧
    (t.connection.isReading = true → s = t.connection.stream) ∧
    (t.connection.isReading = false → Ends policy s) ∧
    t.received ++ t.connection.inbound = fs.map .frame ++ ending t.connection.isReading
  told : .closed ∈ t.received ↔ t.connection.readClosed = true

variable {policy : MissingLength}

theorem delivers_opened (policy : MissingLength) : (opened policy).Delivers policy :=
  ⟨rfl, rfl, ⟨[], .fresh, .refl, fun _ => rfl, fun h => (by cases h), rfl⟩,
    by simp [opened, Connection.opened]⟩

/-- A move by which nothing comes in. -/
theorem Delivers.of_eq (h : t.Delivers policy)
    (hpolicy : t'.connection.policy = t.connection.policy)
    (hstream : t'.connection.stream = t.connection.stream) (hcame : t'.came = t.came)
    (hreading : t'.connection.isReading = t.connection.isReading)
    (hinbound : t'.connection.inbound = t.connection.inbound)
    (hreceived : t'.received = t.received)
    (htold : t'.connection.readClosed = t.connection.readClosed) : t'.Delivers policy where
  agreed := hpolicy.trans h.agreed
  ended := by rw [hstream, hcame, h.ended]
  reads := by
    rw [hcame, hreading, hstream, hreceived, hinbound]
    exact h.reads
  told := by
    rw [hreceived, htold]
    exact h.told

/-- More comes from the peer, or it hangs up. -/
theorem Delivers.grow (h : t.Delivers policy) (hended : t.came.ended = false) (more : List Chunk)
    (ended : Bool) :
    Delivers policy { t with
      connection := { t.connection with stream := t.connection.stream.grow more ended }
      came := t.came.grow more ended } where
  agreed := h.agreed
  ended := rfl
  reads := by
    obtain ⟨fs, s, hreads, hreading, hends, hin⟩ := h.reads
    obtain ⟨hs, hgrows⟩ := hreads.grow hended more ended
    exact ⟨fs, s.grow more ended, hgrows, fun hr => by rw [hreading hr],
      fun hr => (hends hr).grow hs more ended, hin⟩
  told := h.told

theorem Delivers.hangUp (h : t.Delivers policy) : (t.step .hangUp).Delivers policy := by
  cases hended : t.came.ended with
  | true =>
    have hstream := t.connection.stream.close_of_ended (h.ended.trans hended)
    exact h.of_eq rfl hstream (t.came.close_of_ended hended) rfl rfl rfl rfl
  | false =>
    have hgrow := h.grow hended [] true
    rw [← Stream.close_eq_grow, ← Stream.close_eq_grow] at hgrow
    exact hgrow

theorem Delivers.write (h : t.Delivers policy) : (t.step .write).Delivers policy := by
  unfold Exchange.step
  simp only
  split
  · cases he : t.connection.writeStep? with
    | none => exact h
    | some c =>
      have hstep := Connection.writeStep_of_some he
      exact h.of_eq hstep.policy hstep.stream rfl hstep.isReading hstep.inbound rfl
        hstep.readClosed
  · exact h

theorem Delivers.receive (h : t.Delivers policy) : (t.step .receive).Delivers policy := by
  cases htold : t.connection.readClosed with
  | true =>
    have hnone : t.connection.tryReceive = (none, t.connection) := by
      rw [Connection.tryReceive, if_pos htold]
    simp only [Exchange.step, hnone]
    exact h.of_eq rfl rfl rfl rfl rfl (List.append_nil _) rfl
  | false =>
    obtain ⟨fs, s, hreads, hreading, hends, hin⟩ := h.reads
    simp only [Exchange.step, Connection.tryReceive_of_open htold]
    refine ⟨h.agreed, h.ended, ⟨fs, s, hreads, hreading, hends, ?_⟩, ?_⟩
    · rw [← hin, List.append_assoc]
      cases t.connection.inbound <;> rfl
    · simp [h.told, htold, eq_comm]

theorem Delivers.read (h : t.Delivers policy) : (t.step .read).Delivers policy := by
  obtain ⟨fs, s, hreads, hreading, hends, hin⟩ := h.reads
  cases hr : t.connection.isReading with
  | false =>
    simp only [Exchange.step, Connection.readStep?_of_ended hr]
    exact h
  | true =>
    obtain rfl := hreading hr
    have htakes := takes_readFrame t.connection.policy t.connection.stream
    rw [hr] at hin
    rcases Connection.readStep?_cases hr with
      ⟨f, rest, hread, he⟩ | ⟨e, rest, hread, hfatal, he⟩ | ⟨rest, hend, hrest, he⟩ | ⟨-, he⟩ <;>
      simp only [Exchange.step, he]
    · rw [hread] at htakes
      rw [h.agreed] at hread
      refine ⟨h.agreed, htakes.2.trans h.ended, ⟨fs ++ [f], rest, hreads.frame hread,
        fun _ => rfl, fun hx => absurd (hr.symm.trans hx) (by simp), ?_⟩, h.told⟩
      rw [hr, ← List.append_assoc, hin]
      simp [ending]
    · rw [hread] at htakes
      rw [h.agreed] at hread
      exact ⟨h.agreed, htakes.2.trans h.ended, ⟨fs, rest, hreads.failed hread hfatal,
        fun _ => rfl, fun hx => absurd (hr.symm.trans hx) (by simp), by rw [hr]; exact hin⟩, h.told⟩
    · rw [h.agreed] at hend
      refine ⟨h.agreed, hrest.trans h.ended, ⟨fs, _, hreads, fun hx => (by cases hx),
        fun _ => hend, ?_⟩, h.told⟩
      simp only [Connection.endReading]
      rw [← List.append_assoc, hin]
      simp [ending]
    · exact h

theorem Delivers.step (h : t.Delivers policy) (move : Move) : (t.step move).Delivers policy := by
  cases move with
  | arrive chunk =>
    unfold Exchange.step
    simp only
    split <;> rename_i hended
    · exact h
    · rw [Bool.not_eq_true] at hended
      rw [Stream.arrive_eq_grow hended, Stream.arrive_eq_grow (h.ended ▸ hended)]
      exact h.grow (h.ended ▸ hended) [chunk] false
  | hangUp => exact h.hangUp
  | send bytes =>
    unfold Exchange.step Connection.send
    simp only
    split <;> exact h.of_eq rfl rfl rfl rfl rfl rfl rfl
  | receive => exact h.receive
  | close =>
    unfold Exchange.step Connection.close
    simp only
    split <;> exact h.of_eq rfl rfl rfl rfl rfl rfl rfl
  | read => exact h.read
  | stop =>
    unfold Exchange.step
    simp only
    split <;> exact h.of_eq rfl rfl rfl rfl rfl rfl rfl
  | write => exact h.write
  | put most => exact h.of_eq rfl rfl rfl rfl rfl rfl rfl

/-- What the owner has received, and what there is for it to receive when the read loop waits. -/
theorem Delivers.received (h : t.Delivers policy) :
    let incoming := (frames policy t.came).map Inbound.frame
    t.received <+: incoming ++ [.closed] ∧
      (t.connection.readStep? = none →
        t.received ++ t.connection.inbound = incoming ++ ending t.connection.isReading) ∧
      (.closed ∈ t.received → t.received = incoming ++ [.closed]) := by
  intro incoming
  obtain ⟨fs, s, hreads, hreading, hends, hin⟩ := h.reads
  have hincoming : incoming = fs.map .frame ++ (frames policy s).map .frame := by
    rw [← List.map_append, ← hreads.frames]
  have hfs : Inbound.closed ∉ fs.map Inbound.frame := by simp
  cases hr : t.connection.isReading with
  | true =>
    rw [hr, show ending true = [] from rfl, List.append_nil] at hin
    have hbegins : t.received <+: fs.map .frame := ⟨_, hin⟩
    refine ⟨?_, fun hnone => ?_, fun hc => absurd (hbegins.subset hc) hfs⟩
    · rw [hincoming, List.append_assoc]
      exact hbegins.trans (List.prefix_append ..)
    · obtain rfl := hreading hr
      rcases Connection.readStep?_cases hr with
        ⟨_, _, -, he⟩ | ⟨_, _, -, -, he⟩ | ⟨_, -, -, he⟩ | ⟨hstarved, -⟩
      · rw [he] at hnone
        cases hnone
      · rw [he] at hnone
        cases hnone
      · rw [he] at hnone
        cases hnone
      · rw [h.agreed] at hstarved
        rw [hincoming, hin, frames_of_starved hstarved]
        simp [ending]
  | false =>
    rw [hr, show ending false = [.closed] from rfl] at hin
    rw [(hends hr).frames, List.map_nil, List.append_nil] at hincoming
    rw [hincoming]
    refine ⟨⟨_, hin⟩, fun _ => hin, fun hc => ?_⟩
    -- nothing waits, as what waits would stand behind `closed`
    rcases t.connection.inbound.eq_nil_or_concat with hi | ⟨before, last, hi⟩
    · rw [hi, List.append_nil] at hin
      exact hin
    · rw [hi, List.concat_eq_append, ← List.append_assoc] at hin
      obtain ⟨hbefore, -⟩ := List.append_inj' hin rfl
      exact absurd (hbefore ▸ List.mem_append_left before hc) hfs

/-! ## Runs -/

/-- What every move keeps, a run keeps. -/
theorem run_invariant {P : Exchange → Prop}
    (keeps : ∀ (t : Exchange) (move : Move), P t → P (t.step move)) (moves : List Move) :
    ∀ {t : Exchange}, P t → P (t.run moves) := by
  induction moves with
  | nil => exact fun h => h
  | cons move moves ih => exact fun h => ih (keeps _ move h)

/-- What was received stays so. -/
theorem received_prefix_step (t : Exchange) (move : Move) :
    t.received <+: (t.step move).received := by
  cases move with
  | receive => exact List.prefix_append ..
  | _ =>
    unfold step
    simp only
    repeat' split
    all_goals exact List.prefix_refl _

theorem received_prefix_run (t : Exchange) (moves : List Move) :
    t.received <+: (t.run moves).received :=
  run_invariant (P := fun t' => t.received <+: t'.received)
    (fun t' move h => h.trans (t'.received_prefix_step move)) moves (List.prefix_refl _)

theorem stopped_close (t : Exchange) : (t.step .close).connection.stopped = true := by
  simp only [step, Connection.close]
  split <;> rename_i h
  · exact h
  · rfl

theorem stopped_step_of_ne (t : Exchange) {move : Move} (h : move ≠ .close) :
    (t.step move).connection.stopped = t.connection.stopped := by
  cases move with
  | close => exact absurd rfl h
  | read =>
    cases he : t.connection.readStep? with
    | none => simp only [step, he]
    | some c =>
      simp only [step, he]
      exact (Connection.readStep_of_some he).stopped
  | write =>
    unfold step
    simp only
    split
    · cases he : t.connection.writeStep? with
      | none => rfl
      | some c => exact (Connection.writeStep_of_some he).stopped
    · rfl
  | _ =>
    simp only [step, Connection.hangUp, Connection.send, Connection.tryReceive]
    repeat' split
    all_goals rfl

/-- A connection is closed once its owner has closed it, and stays so. -/
theorem stopped_run_iff (moves : List Move) : ∀ {t : Exchange},
    (t.run moves).connection.stopped = true ↔ t.connection.stopped = true ∨ .close ∈ moves := by
  induction moves with
  | nil => simp [run]
  | cons move moves ih =>
    intro t
    rw [show t.run (move :: moves) = (t.step move).run moves from rfl, ih, List.mem_cons]
    by_cases hmove : move = .close
    · subst hmove
      simp [t.stopped_close]
    · rw [t.stopped_step_of_ne hmove]
      simp [Ne.symm hmove]

/-- **The queues of a connection.** Whatever its owner, its loops and the peer do, in any order:

* The peer has got a beginning of the frames that were queued before the first stop, and all of
  them once the write loop has ended or waits. While the write loop runs, what was queued is what
  it has taken and what it has yet to take; it takes some of that with each step, and ends at a stop
  only. A stop is queued by closing the connection, and by the end of the read loop.
* A frame that is sent goes to the end of the queue, unless the connection is closed or the write
  loop has ended: then it is refused and nothing changes. Closing the connection again changes
  nothing.
* What the owner receives are the frames of what came from the peer in their order; behind the last
  of them, if nothing more can be read, it receives once that the connection is closed. Until then
  it is given what came in first; after that it is given nothing, for good. -/
theorem run_exchange (policy : MissingLength) (moves : List Move) :
    let t := (opened policy).run moves
    let sent := (Outbound.beforeStop t.queued).flatten
    let incoming := (frames policy t.came).map Inbound.frame
    (t.wire <+: sent ∧ (t.connection.isWriting = false → t.wire = sent) ∧
      (t.unsent = [] → t.connection.writeStep? = none → t.wire = sent)) ∧
    (if t.connection.isWriting then
      t.queued = t.connection.written.map .frame ++ t.connection.outbound else .stop ∈ t.queued) ∧
    (∀ c, t.connection.writeStep? = some c →
      c.outbound.length < t.connection.outbound.length) ∧
    (.stop ∈ t.queued ↔ .close ∈ moves ∨ t.connection.isReading = false ∧ t.stopDue = false) ∧
    (∀ c, t.connection.readStep? = some c → c.isReading = false →
      c.outbound = t.connection.outbound ++ [.stop]) ∧
    (∀ bytes, (.close ∈ moves ∨ t.connection.isWriting = false →
        t.connection.send bytes = (false, t.connection)) ∧
      (.close ∉ moves → t.connection.isWriting = true → t.connection.send bytes =
        (true, { t.connection with outbound := t.connection.outbound ++ [.frame bytes] }))) ∧
    (.close ∈ moves → (∀ bytes, (t.connection.send bytes).1 = false) ∧
      t.connection.close = t.connection) ∧
    t.received <+: incoming ++ [.closed] ∧
    (t.connection.readStep? = none → t.received ++ t.connection.inbound =
      incoming ++ if t.connection.isReading then [] else [.closed]) ∧
    (.closed ∉ t.received → t.connection.tryReceive = (t.connection.inbound.head?,
      { t.connection with
        inbound := t.connection.inbound.tail
        readClosed := decide (t.connection.inbound.head? = some .closed) })) ∧
    (.closed ∈ t.received → t.received = incoming ++ [.closed] ∧
      ∀ more, (t.run more).connection.tryReceive.1 = none) := by
  intro t sent incoming
  have hwrites : t.Writes :=
    run_invariant (P := Writes) (fun _ move h => h.step move) moves (writes_opened policy)
  have hstops : t.Stops :=
    run_invariant (P := Stops) (fun _ move h => h.step move) moves (stops_opened policy)
  have hkeeps : ∀ t move, Delivers policy t → Delivers policy (t.step move) :=
    fun _ move h => h.step move
  have hdelivers : t.Delivers policy := run_invariant hkeeps moves (delivers_opened policy)
  have hclosed : t.connection.stopped = true ↔ .close ∈ moves :=
    (stopped_run_iff moves).trans (or_iff_right Bool.false_ne_true)
  obtain ⟨hbegins, hall⟩ := hwrites.wire_begins
  obtain ⟨hreceived, hwaiting, htold⟩ := hdelivers.received
  refine ⟨⟨hbegins, fun hw => ?_, hall⟩, ?_, fun c hc => Connection.writeStep?_shortens hc, ?_,
    fun c hc hended => ?_, fun bytes => ⟨?_, ?_⟩, fun hc => ?_, hreceived, hwaiting,
    fun hopen => ?_, fun hc => ⟨htold hc, fun more => ?_⟩⟩
  · exact hall (hwrites.written hw).1 (Connection.writeStep?_of_ended hw)
  · split <;> rename_i hw
    · exact hwrites.writing hw
    · obtain ⟨-, rest, hrest⟩ := hwrites.written (eq_false_of_ne_true hw)
      rw [hrest]
      exact List.mem_append_right _ List.mem_cons_self
  · rw [hstops.stops, hclosed]
  · rcases (Connection.readStep_of_some hc).outbound with ⟨hreading, -⟩ | ⟨-, houtbound⟩
    · exact absurd (hended.symm.trans hreading) Bool.false_ne_true
    · exact houtbound
  · intro hrefused
    exact Connection.send_of_refused (hrefused.imp_left hclosed.2) bytes
  · intro hopen hw
    have hstopped : t.connection.stopped = false :=
      eq_false_of_ne_true fun hs => hopen (hclosed.1 hs)
    exact Connection.send_of_open hstopped hw bytes
  · have hstopped : t.connection.stopped = true := hclosed.2 hc
    exact ⟨fun bytes => by rw [Connection.send_of_refused (.inl hstopped)],
      by rw [Connection.close, if_pos hstopped]⟩
  · exact Connection.tryReceive_of_open
      (eq_false_of_ne_true fun hr => hopen (hdelivers.told.2 hr))
  · have hmore : (t.run more).Delivers policy := run_invariant hkeeps more hdelivers
    have hread := hmore.told.1 ((t.received_prefix_run more).subset hc)
    rw [Connection.tryReceive, if_pos hread]

/-- A frame that is sent between the end of the read loop and its stop is still written. -/
example : ((opened .reject).run [.hangUp, .read, .receive, .send [1], .stop, .send [2], .write,
    .put 1, .write]).wire = [1] := by
  decide +kernel

end Exchange

end LanguageClient
