import LanguageClient.Frame.Reader

/-!
# A connection to a server

Three parties share a connection. Its owner sends frames, receives what has
come in and closes. The read loop takes frames off the stream of the peer
into the inbound queue. The write loop writes the frames of the outbound
queue. Each party acts in steps of its own; `settle` lets the two loops run
until both wait.

* A frame that cannot be read is discarded, unless nothing can be read behind
  it.
* When the read loop ends it leaves `closed` in the inbound queue and stops
  the write loop behind all that was sent before.
-/
namespace LanguageClient

/-- What the read loop leaves to the owner. -/
inductive Inbound where
  | frame (f : Frame)
  | closed
  deriving DecidableEq, Repr

/-- What the write loop is given. -/
inductive Outbound where
  | frame (bytes : List UInt8)
  | stop
  deriving DecidableEq, Repr

/-- A connection: what has come from the peer and is not yet read, the two queues between the
owner and the loops, and the frames written to the peer. -/
structure Connection where
  policy : MissingLength
  stream : Stream
  isReading : Bool
  inbound : List Inbound
  outbound : List Outbound
  written : List (List UInt8)
  isWriting : Bool
  /-- Whether the peer still takes what is written. -/
  isHeard : Bool
  /-- Whether the owner has been told that nothing more comes in. -/
  readClosed : Bool
  /-- Whether the owner has closed the connection. -/
  stopped : Bool
  deriving Repr, Inhabited

namespace Connection

def opened (policy : MissingLength) : Connection :=
  { policy, stream := .fresh, isReading := true, inbound := [], outbound := [], written := [],
    isWriting := true, isHeard := true, readClosed := false, stopped := false }

/-! ## The peer -/

/-- Whether the peer can still send: it has not hung up and somebody reads. -/
def canArrive (c : Connection) : Bool :=
  c.isReading && !c.stream.ended

/-- Bytes come from the peer, unless it has hung up. -/
def arrive (c : Connection) (bytes : List UInt8) : Connection :=
  if c.stream.ended then c else { c with stream := c.stream.arrive (.bytes bytes) }

/-- The peer hangs up: nothing more comes from it. -/
def hangUp (c : Connection) : Connection :=
  { c with stream := c.stream.close }

/-- The peer is gone: nothing more comes from it and nothing reaches it. -/
def vanish (c : Connection) : Connection :=
  { c.hangUp with isHeard := false }

/-! ## The owner -/

/-- Hands a frame to the write loop; says whether it was taken. -/
def send (c : Connection) (bytes : List UInt8) : Bool × Connection :=
  if c.stopped || !c.isWriting then (false, c)
  else (true, { c with outbound := c.outbound ++ [.frame bytes] })

/-- Hands several frames to the write loop; those that are not taken are lost. -/
def sendAll (c : Connection) (frames : List (List UInt8)) : Connection :=
  frames.foldl (fun c bytes => (c.send bytes).2) c

/-- Takes what came in first, if anything is there. After `closed` there is nothing. -/
def tryReceive (c : Connection) : Option Inbound × Connection :=
  if c.readClosed then (none, c)
  else
    match c.inbound with
    | [] => (none, c)
    | .frame f :: rest => (some (.frame f), { c with inbound := rest })
    | .closed :: rest => (some .closed, { c with inbound := rest, readClosed := true })

/-- Stops the write loop behind all that was sent. -/
def close (c : Connection) : Connection :=
  if c.stopped then c
  else { c with stopped := true, outbound := c.outbound ++ [.stop] }

/-- Lets go of the connection: what was sent is still written, but nothing more is read. -/
def release (c : Connection) : Connection :=
  { c.close with isReading := false }

/-! ## The loops -/

def endReading (c : Connection) : Connection :=
  { c with
    isReading := false
    inbound := c.inbound ++ [.closed]
    outbound := c.outbound ++ [.stop] }

/-- One step of the read loop, unless it has ended or waits. -/
def readStep? (c : Connection) : Option Connection :=
  if c.isReading then
    match FrameReader.readFrame c.policy c.stream with
    | .frame f rest => some { c with stream := rest, inbound := c.inbound ++ [.frame f] }
    | .failed e rest =>
      if e.isFatal then some { c with stream := rest }.endReading
      else some { c with stream := rest }
    | .finished rest => some { c with stream := rest }.endReading
    | .starved => none
  else none

/-- One step of the write loop, unless it has ended or waits. -/
def writeStep? (c : Connection) : Option Connection :=
  if c.isWriting then
    match c.outbound with
    | [] => none
    | .frame bytes :: rest =>
      if c.isHeard then some { c with outbound := rest, written := c.written ++ [bytes] }
      else some { c with outbound := [], isWriting := false }
    | .stop :: _ => some { c with outbound := [], isWriting := false }
  else none

/-- Repeats a step until it cannot be taken, but at most as often as given. -/
def repeatStep (step? : Connection → Option Connection) : Nat → Connection → Connection
  | 0, c => c
  | fuel + 1, c =>
    match step? c with
    | some next => repeatStep step? fuel next
    | none => c

/-- Lets the read loop run until it waits. Each of its steps takes some of the stream or is its
last. -/
def readAll (c : Connection) : Connection :=
  repeatStep readStep? (c.stream.size + 1) c

/-- Lets the write loop run until it waits. Each of its steps takes an item of its queue. -/
def writeAll (c : Connection) : Connection :=
  repeatStep writeStep? (c.outbound.length + 1) c

/-- Lets both loops run until they wait. -/
def settle (c : Connection) : Connection :=
  c.readAll.writeAll

/-- Whether the peer sees that no more is written. -/
def isSilent (c : Connection) : Bool :=
  !c.isWriting || !c.isHeard

end Connection

end LanguageClient
