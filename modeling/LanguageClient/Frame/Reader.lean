import LanguageClient.Frame.Basic
import LanguageClient.Frame.Stream
import LanguageClient.Number.Numeral
import LanguageClient.Text.Blank

/-!
# Reading frames

`readFrame` reads the next frame of a stream. Header lines end in a line
feed; the block ends with a line that is empty but for a carriage return.
Header bytes stand for the characters with their codes. An error costs the
bytes read so far, and the next call goes on behind them.
-/
namespace LanguageClient

/-- How reading a frame ends. -/
inductive FrameRead where
  | frame (f : Frame) (rest : Stream)
  | finished (rest : Stream)
  | failed (e : FrameError) (rest : Stream)
  | starved
  deriving Repr

namespace FrameReader

/-- The field of a header line, if it has a colon: name and value without the blanks around. -/
def fieldOfLine? (line : List UInt8) : Option (String × String) :=
  let text := line.map fun b => Char.ofNat b.toNat
  match text.dropWhile (· ≠ ':') with
  | [] => none
  | _ :: value =>
    some (String.ofList (Blank.trim (text.takeWhile (· ≠ ':'))), String.ofList (Blank.trim value))

/-- Whether a line ends the header block. -/
def isBlankLine (line : List UInt8) : Bool :=
  line == [0x0D, 0x0A] || line == [0x0A]

/-- A header block: its fields and its bytes. -/
structure Headers where
  fields : List (String × String)
  bytes : List UInt8
  deriving Repr

def Headers.add (h : Headers) (line : List UInt8) : Headers :=
  ⟨h.fields ++ (fieldOfLine? line).toList, h.bytes ++ line⟩

/-- How reading a header block ends; `finished` is the end of the stream before its first byte. -/
inductive HeadersRead where
  | headers (h : Headers) (rest : Stream)
  | finished (rest : Stream)
  | failed (e : FrameError) (rest : Stream)
  | starved
  deriving Repr

/-- Reads the rest of a header block, of which at most `lines` more lines are accepted. -/
def readHeaders (h : Headers) : Nat → Stream → HeadersRead
  | 0, s =>
    match s.readLine (maxHeaderLine + 1) with
    | .ok line rest =>
      if maxHeaderLine < line.length then .failed .lineTooLong rest
      else .failed .tooManyHeaders rest
    | .fault text rest => .failed (.broken text) rest
    | .starved => .starved
  | lines + 1, s =>
    match s.readLine (maxHeaderLine + 1) with
    | .ok line rest =>
      if maxHeaderLine < line.length then .failed .lineTooLong rest
      else if line.isEmpty then
        if h.bytes.isEmpty then .finished rest else .failed (.truncated .headers) rest
      else if isBlankLine line then .headers ⟨h.fields, h.bytes ++ line⟩ rest
      else readHeaders (h.add line) lines rest
    | .fault text rest => .failed (.broken text) rest
    | .starved => .starved

def length? (fields : List (String × String)) : Except FrameError (Option Nat) :=
  match Frame.field? fields "Content-Length" with
  | none => .ok none
  | some value =>
    match Numeral.read 0x10000000000000000 value.toList with
    | .ok n => .ok (some n)
    | .error _ => .error (.invalidLength value)

def readBody (h : Headers) (length : Nat) (s : Stream) : FrameRead :=
  match s.readExactly length with
  | .ok body rest =>
    if body.length < length then .failed (.truncated .body) rest
    else .frame ⟨h.fields, h.bytes, body⟩ rest
  | .fault text rest => .failed (.broken text) rest
  | .starved => .starved

def skipBody (length : Nat) (s : Stream) : FrameRead :=
  match s.skip length with
  | .ok skipped rest =>
    if skipped < length then .failed (.truncated .oversizedBody) rest
    else .failed (.oversized length) rest
  | .fault text rest => .failed (.broken text) rest
  | .starved => .starved

/-- Reads the body of a frame that does not give its length: what one read yields. -/
def readAvailable (h : Headers) (s : Stream) : FrameRead :=
  match s.readSome fallbackBody with
  | .ok body rest => .frame ⟨h.fields, h.bytes, body⟩ rest
  | .fault text rest => .failed (.broken text) rest
  | .starved => .starved

/-- Reads the next frame. -/
def readFrame (policy : MissingLength) (s : Stream) : FrameRead :=
  match readHeaders ⟨[], []⟩ maxHeaderLines s with
  | .finished rest => .finished rest
  | .failed e rest => .failed e rest
  | .starved => .starved
  | .headers h rest =>
    match length? h.fields with
    | .error e => .failed e rest
    | .ok (some length) =>
      if maxBody < length then skipBody length rest else readBody h length rest
    | .ok none =>
      match policy with
      | .reject => .failed .missingLength rest
      | .readAvailable => readAvailable h rest

end FrameReader

end LanguageClient
