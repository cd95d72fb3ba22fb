import LanguageClient.Toml.Scalar
import LanguageClient.Toml.Table

/-!
# TOML documents

`parse?` reads a document as a JSON value, or fails if it is not well formed.
Arrays and tables in braces may be written over several lines and nested to
a limit.
-/
namespace LanguageClient.Toml

/-- How deep arrays and tables in braces may be nested. -/
def maxNesting : Nat := 80

mutual

/-- Reads a value in which arrays and tables may be nested `depth` deep. The fuel bounds the steps
of reading. -/
def readValue? (depth : Nat) : Nat → List Char → Option (Json × List Char)
  | 0, _ => none
  | fuel + 1, s =>
    match s with
    | '"' :: _ => (readString? s).map fun (text, rest) => (.str (String.ofList text), rest)
    | '\'' :: _ => (readString? s).map fun (text, rest) => (.str (String.ofList text), rest)
    | '[' :: rest => do
      guard (0 < depth)
      let (items, rest) ← readItems? (depth - 1) fuel rest
      some (.arr items, rest)
    | '{' :: rest => do
      guard (0 < depth)
      let (members, rest) ← readMembers? (depth - 1) fuel [] rest
      some (.object (membersToJson members), rest)
    | _ => readScalar? s

/-- Reads the items of an array and the bracket that ends it. -/
def readItems? (depth : Nat) : Nat → List Char → Option (List Json × List Char)
  | 0, _ => none
  | fuel + 1, s => do
    match ← skipSpace? s with
    | ']' :: rest => some ([], rest)
    | s =>
      let (item, rest) ← readValue? depth fuel s
      match ← skipSpace? rest with
      | ',' :: rest =>
        let (items, rest) ← readItems? depth fuel rest
        some (item :: items, rest)
      | ']' :: rest => some ([item], rest)
      | _ => none

/-- Reads the names and values of a table in braces behind those that it has, and the brace that
ends it. -/
def readMembers? (depth : Nat) : Nat → Members → List Char → Option (Members × List Char)
  | 0, _, _ => none
  | fuel + 1, members, s => do
    match ← skipSpace? s with
    | '}' :: rest => some (members, rest)
    | s =>
      let (key, rest) ← readKey? s
      let rest ← expect? '=' rest
      let (value, rest) ← readValue? depth fuel (skipBlanks rest)
      let members ← Members.put? value true key members
      match ← skipSpace? rest with
      | ',' :: rest => readMembers? depth fuel members rest
      | '}' :: rest => some (members, rest)
      | _ => none

end

/-- A document while it is read: its tables and the path of the one that lines belong to. -/
structure Draft where
  members : Members
  path : List String
  deriving Repr

namespace Draft

/-- Changes the table that a header names and makes it the one that lines belong to. -/
def header? (d : Draft) (key : List String) (change : String → Members → Option Members) :
    Option Draft := do
  let name ← key.getLast?
  let members ← Members.changeAt? (change name) key.dropLast d.members
  some ⟨members, key⟩

def put? (d : Draft) (key : List String) (value : Json) : Option Draft := do
  let members ← Members.changeAt? (Members.put? value true key) d.path d.members
  some { d with members := members }

/-- Reads one line that is neither blank nor a comment, up to what may end it. -/
def readLine? (d : Draft) (s : List Char) : Option (Draft × List Char) :=
  match s with
  | '[' :: '[' :: rest => do
    let (key, rest) ← readKey? rest
    let rest ← expect? ']' (← expect? ']' rest)
    some (← d.header? key Members.addTable?, rest)
  | '[' :: rest => do
    let (key, rest) ← readKey? rest
    let rest ← expect? ']' rest
    some (← d.header? key Members.openTable?, rest)
  | _ => do
    let (key, rest) ← readKey? s
    let rest ← expect? '=' rest
    let (value, rest) ← readValue? maxNesting (2 * rest.length + 2) (skipBlanks rest)
    some (← d.put? key value, rest)

/-- Reads the lines of a document. The fuel bounds the lines. -/
def readLines? (d : Draft) : Nat → List Char → Option Draft
  | 0, _ => none
  | fuel + 1, s => do
    match ← skipSpace? s with
    | [] => some d
    | s =>
      let (d, rest) ← d.readLine? s
      d.readLines? fuel (← finishLine? rest)

end Draft

/-- The text behind a byte order mark at its start. -/
def skipMark : List Char → List Char
  | '\ufeff' :: s => s
  | s => s

def parse? (text : String) : Option Json := do
  let s := skipMark text.toList
  let d ← Draft.readLines? ⟨[], []⟩ (s.length + 1) s
  some (.object (membersToJson d.members))

end LanguageClient.Toml
