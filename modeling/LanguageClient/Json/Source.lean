import LanguageClient.Json.Number
import LanguageClient.Json.Text

/-!
# Reading JSON

`Source.read?` reads the bytes of one JSON text into a tree that keeps what
the text says: members in their order with repeated names, and a mark where
a string denotes no text (bytes that are not UTF-8, half a surrogate pair)
or a number is out of range. `Source.toJson?` turns a tree into a value; it
fails on such a mark and on nesting deeper than it is allowed. The two are
apart because a member that nobody looks at is only read, never turned into
a value.

* `Json.parse?` reads a whole text of at most `maxDepth` levels.
-/
namespace LanguageClient

namespace Json

/-- A JSON text as it is written. -/
inductive Source where
  | null
  | bool (b : Bool)
  | number (value : Option Json)
  | text (value : Option String)
  | array (items : List Source)
  | object (members : List (Option String × Source))
  deriving Repr, Inhabited

/-- How deep arrays and objects may be nested in a value. -/
def maxDepth : Nat := 127

/-- Bytes between the tokens of a text. -/
def isBlank (b : UInt8) : Bool :=
  b = 0x20 || b = 0x0A || b = 0x09 || b = 0x0D

def skipBlank (s : List UInt8) : List UInt8 :=
  s.dropWhile isBlank

/-- The text behind a given beginning. -/
def expect? : List UInt8 → List UInt8 → Option (List UInt8)
  | [], s => some s
  | b :: bs, c :: s => if b = c then expect? bs s else none
  | _ :: _, [] => none

namespace Source

mutual

/-- Reads one value. The fuel bounds the values, items and members read one after another. -/
def readValue? : Nat → List UInt8 → Option (Source × List UInt8)
  | 0, _ => none
  | fuel + 1, s =>
    match skipBlank s with
    | [] => none
    | b :: s =>
      if b = 0x6E then do
        let s ← expect? [0x75, 0x6C, 0x6C] s
        some (.null, s)
      else if b = 0x74 then do
        let s ← expect? [0x72, 0x75, 0x65] s
        some (.bool true, s)
      else if b = 0x66 then do
        let s ← expect? [0x61, 0x6C, 0x73, 0x65] s
        some (.bool false, s)
      else if b = 0x22 then do
        let (value, s) ← readText? s
        some (.text value, s)
      else if b = 0x5B then
        match skipBlank s with
        | 0x5D :: s => some (.array [], s)
        | s => do
          let (items, s) ← readItems? fuel s
          some (.array items, s)
      else if b = 0x7B then
        match skipBlank s with
        | 0x7D :: s => some (.object [], s)
        | s => do
          let (members, s) ← readMembers? fuel s
          some (.object members, s)
      else do
        let (parts, s) ← readNumber? (b :: s)
        some (.number parts.value?, s)

/-- Reads the items of an array up to its closing bracket; there is at least one. -/
def readItems? : Nat → List UInt8 → Option (List Source × List UInt8)
  | 0, _ => none
  | fuel + 1, s => do
    let (item, s) ← readValue? fuel s
    match skipBlank s with
    | 0x2C :: s => do
      let (items, s) ← readItems? fuel s
      some (item :: items, s)
    | 0x5D :: s => some ([item], s)
    | _ => none

/-- Reads the members of an object up to its closing brace; there is at least one. -/
def readMembers? : Nat → List UInt8 → Option (List (Option String × Source) × List UInt8)
  | 0, _ => none
  | fuel + 1, s =>
    match skipBlank s with
    | 0x22 :: s => do
      let (name, s) ← readText? s
      match skipBlank s with
      | 0x3A :: s => do
        let (value, s) ← readValue? fuel s
        match skipBlank s with
        | 0x2C :: s => do
          let (members, s) ← readMembers? fuel s
          some ((name, value) :: members, s)
        | 0x7D :: s => some ([(name, value)], s)
        | _ => none
      | _ => none
    | _ => none

end

/-- Reads a text that holds one value and blanks around it. -/
def read? (s : List UInt8) : Option Source := do
  let (value, rest) ← readValue? (2 * s.length + 2) s
  if skipBlank rest = [] then some value else none

mutual

/-- The value of a tree with at most `depth` levels of arrays and objects. -/
def toJson? (depth : Nat) : Source → Option Json
  | .null => some .null
  | .bool b => some (.bool b)
  | .number value => value
  | .text value => .str <$> value
  | .array items =>
    match depth with
    | 0 => none
    | depth + 1 => .arr <$> itemsToJson? depth items
  | .object members =>
    match depth with
    | 0 => none
    | depth + 1 => Json.object <$> membersToJson? depth members

def itemsToJson? (depth : Nat) : List Source → Option (List Json)
  | [] => some []
  | item :: items => do
    let v ← toJson? depth item
    let vs ← itemsToJson? depth items
    some (v :: vs)

def membersToJson? (depth : Nat) : List (Option String × Source) → Option (List (String × Json))
  | [] => some []
  | (name, value) :: members => do
    let k ← name
    let v ← toJson? depth value
    let rest ← membersToJson? depth members
    some ((k, v) :: rest)

end

end Source

def parse? (s : List UInt8) : Option Json := do
  let tree ← Source.read? s
  tree.toJson? maxDepth

end Json

end LanguageClient
