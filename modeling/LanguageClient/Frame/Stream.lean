/-!
# A byte stream behind a buffer

Bytes arrive in chunks. A read takes at most one chunk; what it does not
take of it stays. Reads go through a buffer that is filled by one read when
it is empty, except that a read at least as large as the buffer goes past it.
A stream that has not ended and has nothing to give starves a read: the read
takes nothing and can be tried again once more has arrived.
-/
namespace LanguageClient

/-- What one read finds: bytes, or a fault of the connection. -/
inductive Chunk where
  | bytes (b : List UInt8)
  | fault (text : String)
  deriving DecidableEq, Repr

/-- A byte stream: the buffer, what has arrived behind it, and whether that is all. -/
structure Stream where
  buffer : List UInt8
  arrived : List Chunk
  ended : Bool
  deriving Repr, Inhabited

/-- How a read of a stream ends: with a value, in a fault, or waiting for more. -/
inductive Outcome (α : Type) where
  | ok (value : α) (rest : Stream)
  | fault (text : String) (rest : Stream)
  | starved
  deriving Repr

namespace Stream

/-- A stream of which nothing has arrived. -/
def fresh : Stream := ⟨[], [], false⟩

def ofChunks (chunks : List Chunk) : Stream := ⟨[], chunks, true⟩

def arrive (s : Stream) (c : Chunk) : Stream :=
  { s with arrived := s.arrived ++ [c] }

def close (s : Stream) : Stream :=
  { s with ended := true }

/-- How many bytes a chunk has; a fault counts as one. -/
def chunkSize : Chunk → Nat
  | .bytes b => b.length
  | .fault _ => 1

/-- How much has arrived and is not read. -/
def size (s : Stream) : Nat :=
  s.buffer.length + s.arrived.foldr (fun c n => chunkSize c + n) 0

def bufferSize : Nat := 8192

/-- The first `n` bytes, taken block by block, which spares a second copy of a long text. -/
def takeBlocks (n : Nat) (s : List UInt8) : List UInt8 :=
  if n ≤ bufferSize then s.take n
  else s.take bufferSize ++ takeBlocks (n - bufferSize) (s.drop bufferSize)
  termination_by n
  decreasing_by simp_all [bufferSize]; omega

theorem takeBlocks_eq_take (n : Nat) (s : List UInt8) : takeBlocks n s = s.take n := by
  fun_induction takeBlocks n s with
  | case1 => rfl
  | case2 n s h ih =>
    rw [ih, ← List.take_add, Nat.add_sub_of_le (Nat.le_of_not_le h)]

/-- One read past the buffer, of at most `limit` bytes; no bytes mean the end. -/
def pull (limit : Nat) (buffer : List UInt8) (ended : Bool) :
    List Chunk → Outcome (List UInt8)
  | [] => if ended then .ok [] ⟨buffer, [], ended⟩ else .starved
  | .fault text :: rest => .fault text ⟨buffer, rest, ended⟩
  | .bytes [] :: rest => pull limit buffer ended rest
  | .bytes (b :: bs) :: rest =>
    let left := (b :: bs).drop limit
    if left.isEmpty then .ok (b :: bs) ⟨buffer, rest, ended⟩
    else .ok (takeBlocks limit (b :: bs)) ⟨buffer, .bytes left :: rest, ended⟩

/-- One read of at most `limit` bytes through the buffer; no bytes mean the end. -/
def readSome (limit : Nat) (s : Stream) : Outcome (List UInt8) :=
  match s.buffer with
  | b :: bs => .ok ((b :: bs).take limit) { s with buffer := (b :: bs).drop limit }
  | [] =>
    if bufferSize ≤ limit then pull limit [] s.ended s.arrived
    else
      match pull bufferSize [] s.ended s.arrived with
      | .ok bytes rest => .ok (bytes.take limit) { rest with buffer := bytes.drop limit }
      | .fault text rest => .fault text rest
      | .starved => .starved

def readByte (s : Stream) : Outcome (Option UInt8) :=
  match s.buffer with
  | b :: bs => .ok (some b) { s with buffer := bs }
  | [] =>
    match pull bufferSize [] s.ended s.arrived with
    | .ok [] rest => .ok none rest
    | .ok (b :: bs) rest => .ok (some b) { rest with buffer := bs }
    | .fault text rest => .fault text rest
    | .starved => .starved

/-- Reads up to and including the next line feed, but at most `limit` bytes and not past the end.
`line` holds the bytes read before, last first. -/
def readLineFrom (line : List UInt8) : Nat → Stream → Outcome (List UInt8)
  | 0, s => .ok line.reverse s
  | limit + 1, s =>
    match readByte s with
    | .ok (some b) rest =>
      if b = 0x0A then .ok (b :: line).reverse rest else readLineFrom (b :: line) limit rest
    | .ok none rest => .ok line.reverse rest
    | .fault text rest => .fault text rest
    | .starved => .starved

/-- Reads up to and including the next line feed, but at most `limit` bytes and not past the
end. -/
def readLine (limit : Nat) (s : Stream) : Outcome (List UInt8) :=
  readLineFrom [] limit s

/-- The bytes of some pieces, which are given last first. -/
def assemble : List (List UInt8) → List UInt8
  | [] => []
  | last :: before => before.foldl (fun rest piece => piece ++ rest) last

theorem assemble_eq_flatten (pieces : List (List UInt8)) :
    assemble pieces = pieces.reverse.flatten := by
  cases pieces with
  | nil => rfl
  | cons last before => simp [assemble]

/-- Reads `wanted` bytes by reads of at most `most` each, or all there are; `pieces` holds what
was read before, last first. The fuel bounds the reads, of which each takes a byte. -/
def readAllFrom (most : Nat) (pieces : List (List UInt8)) :
    Nat → Nat → Stream → Outcome (List UInt8)
  | 0, _, s => .ok (assemble pieces) s
  | fuel + 1, wanted, s =>
    if wanted = 0 then .ok (assemble pieces) s
    else
      match readSome (min most wanted) s with
      | .ok bytes rest =>
        if bytes.isEmpty then .ok (assemble pieces) rest
        else readAllFrom most (bytes :: pieces) fuel (wanted - bytes.length) rest
      | .fault text rest => .fault text rest
      | .starved => .starved

/-- Reads `wanted` bytes, or all there are. -/
def readExactly (wanted : Nat) (s : Stream) : Outcome (List UInt8) :=
  readAllFrom wanted [] wanted wanted s

/-- Skips `wanted` bytes, or all there are, and counts them. The fuel bounds the reads. -/
def skipFrom (skipped : Nat) : Nat → Nat → Stream → Outcome Nat
  | 0, _, s => .ok skipped s
  | fuel + 1, wanted, s =>
    if wanted = 0 then .ok skipped s
    else
      match readSome (min bufferSize wanted) s with
      | .ok bytes rest =>
        if bytes.isEmpty then .ok skipped rest
        else skipFrom (skipped + bytes.length) fuel (wanted - bytes.length) rest
      | .fault text rest => .fault text rest
      | .starved => .starved

/-- Skips `wanted` bytes, or all there are, and counts them. -/
def skip (wanted : Nat) (s : Stream) : Outcome Nat :=
  skipFrom 0 wanted wanted s

end Stream

end LanguageClient
