import LanguageClient.Json.Decode
import LanguageClient.Text.Line
import LanguageClient.Text.Utf8

/-!
# Positions in a document

A position is a line and a column in UTF-16 units, both counted from zero.
It addresses a point of its line's content; the line behind a final
terminator is there too, and empty. `split?` cuts a text at a position,
`offset?` is the byte offset of that point.
-/
namespace LanguageClient

/-- A line and a column in UTF-16 units, both from zero. -/
structure Position where
  line : UInt32
  character : UInt32
  deriving DecidableEq, Repr, Inhabited

namespace Position

def origin : Position := ⟨0, 0⟩

/-- The order of positions: by line, then by column. -/
def compare (p q : Position) : Ordering :=
  (Ord.compare p.line q.line).then (Ord.compare p.character q.character)

/-- The text before and after a position. -/
def split? (text : List Char) (p : Position) : Option (List Char × List Char) := do
  let (lines, rest) ← Line.splitAt? p.line.toNat text
  let line := Line.content rest
  let (before, after) ← Utf16.split? line p.character.toNat
  some (lines ++ before, after ++ rest.drop line.length)

def offset? (text : List Char) (p : Position) : Option Nat := do
  let (before, _) ← split? text p
  some (Utf8.byteLength before)

/-- The position reached by writing `text` at `start`. -/
def after (start : Position) (text : List Char) : Position :=
  match Line.split text with
  | [] => start
  | lines =>
    let last := lines.getLast?.getD []
    let breaks := if Line.isTerminated last then lines.length else lines.length - 1
    let tail := if Line.isTerminated last then [] else last
    let columns := UInt32.ofNat (Utf16.length tail)
    if breaks = 0 then ⟨start.line, start.character + columns⟩
    else ⟨start.line + UInt32.ofNat breaks, columns⟩

def fields : Fields (UInt32 × UInt32 × Unit) :=
  .required "line" Decoder.uint32 (.required "character" Decoder.uint32 .done)

def decode : Decoder Position := fun j =>
  (fun (line, character, ()) => ⟨line, character⟩) <$> fields.read "Position" j

def toJson (p : Position) : Json :=
  .obj [("character", .int p.character.toNat), ("line", .int p.line.toNat)]

end Position

/-- The text between two positions, the end not included. -/
structure Range where
  start : Position
  stop : Position
  deriving DecidableEq, Repr, Inhabited

namespace Range

/-- The empty range at a position. -/
def point (p : Position) : Range := ⟨p, p⟩

def isEmpty (r : Range) : Bool :=
  r.start = r.stop

def fields : Fields (Position × Position × Unit) :=
  .required "start" Position.decode (.required "end" Position.decode .done)

def decode : Decoder Range := fun j =>
  (fun (start, stop, ()) => ⟨start, stop⟩) <$> fields.read "Range" j

def toJson (r : Range) : Json :=
  .obj [("end", r.stop.toJson), ("start", r.start.toJson)]

end Range

end LanguageClient
