import LanguageClient.Json.Basic
import LanguageClient.Text.Quoted

/-!
# Decoding JSON values

A decoder reads a value of one shape and says why another value is not of
it. Records are described by their fields in the order of declaration
(`Fields`); they are read from an object, whose members are looked at in
their order and of which unknown ones are passed over, or from an array that
gives the fields by position.

* `Fields.read` decodes a record.
* `Mismatch.message` is the text of a failure.
-/
namespace LanguageClient

/-- Why a value is not of the shape that was asked for. -/
inductive Mismatch where
  | wrongType (found : Json) (wanted : String)
  | wrongValue (found : Json) (wanted : String)
  | missingField (name : String)
  | repeatedField (name : String)
  | wrongLength (length : Nat) (wanted : String)
  | noAlternative (union : String)
  | unknownSeverity (code : Nat)
  deriving DecidableEq, Repr, BEq

namespace Mismatch

/-- A value as a failure names it. -/
def describe : Json → String
  | .null => "null"
  | .bool b => "boolean `" ++ (if b then "true" else "false") ++ "`"
  | .int n => "integer `" ++ toString n ++ "`"
  | .float x => "floating point `" ++ String.ofList x.render ++ "`"
  | .str s => "string " ++ Quoted.quote s
  | .arr _ => "sequence"
  | .obj _ => "map"

def message : Mismatch → String
  | wrongType found wanted => "invalid type: " ++ describe found ++ ", expected " ++ wanted
  | wrongValue found wanted => "invalid value: " ++ describe found ++ ", expected " ++ wanted
  | missingField name => "missing field `" ++ name ++ "`"
  | repeatedField name => "duplicate field `" ++ name ++ "`"
  | wrongLength length wanted =>
    "invalid length " ++ toString length ++ ", expected " ++ wanted
  | noAlternative union => "data did not match any variant of untagged enum " ++ union
  | unknownSeverity code => "unknown diagnostic severity: " ++ toString code

end Mismatch

abbrev Decoder (α : Type) := Json → Except Mismatch α

namespace Decoder

/-- Reads an integer from `low` to `high`. -/
def int (low high : Int) (wanted : String) : Decoder Int
  | .int n => if low ≤ n ∧ n ≤ high then .ok n else .error (.wrongValue (.int n) wanted)
  | other => .error (.wrongType other wanted)

def int64 : Decoder Int :=
  int (-0x8000000000000000) 0x7FFFFFFFFFFFFFFF "i64"

def nat64 : Decoder Nat := fun j =>
  Int.toNat <$> int 0 0xFFFFFFFFFFFFFFFF "u64" j

def uint32 : Decoder UInt32 := fun j =>
  (fun n => UInt32.ofNat n.toNat) <$> int 0 0xFFFFFFFF "u32" j

def uint16 : Decoder UInt16 := fun j =>
  (fun n => UInt16.ofNat n.toNat) <$> int 0 0xFFFF "u16" j

def bool : Decoder Bool
  | .bool b => .ok b
  | other => .error (.wrongType other "a boolean")

def string : Decoder String
  | .str s => .ok s
  | other => .error (.wrongType other "a string")

def any : Decoder Json :=
  .ok

/-- Reads `null` as nothing and all else by the given decoder. -/
def nullable {α : Type} (read : Decoder α) : Decoder (Option α)
  | .null => .ok none
  | other => some <$> read other

def list {α : Type} (read : Decoder α) : Decoder (List α)
  | .arr items => items.mapM read
  | other => .error (.wrongType other "a sequence")

/-- Reads the values of the members of an object one after another. -/
def map {α : Type} (read : Decoder α) : Decoder (List (String × α))
  | .obj members => members.mapM fun (name, value) => (name, ·) <$> read value
  | other => .error (.wrongType other "a map")

/-- Reads by the first of two decoders that succeeds. -/
def orElse {α : Type} (union : String) (first second : Decoder α) : Decoder α := fun j =>
  match first j with
  | .ok x => .ok x
  | .error _ =>
    match second j with
    | .ok x => .ok x
    | .error _ => .error (.noAlternative union)

end Decoder

/-- The fields of a record in the order of declaration: the names each may have (the first is
its own), its decoder, and the value it takes when it is not written, if it may be left out. -/
inductive Fields : Type → Type 1 where
  | done : Fields Unit
  | field {α β : Type} (names : List String) (read : Decoder α) (absent : Option α)
      (rest : Fields β) : Fields (α × β)

namespace Fields

/-- A field that must be written. -/
def required {α β : Type} (name : String) (read : Decoder α) (rest : Fields β) : Fields (α × β) :=
  field [name] read none rest

/-- A field with a value of its own when it is not written. -/
def defaulted {α β : Type} (name : String) (read : Decoder α) (absent : α) (rest : Fields β) :
    Fields (α × β) :=
  field [name] read (some absent) rest

/-- A field that may be left out or `null`. -/
def optional {α β : Type} (name : String) (read : Decoder α) (rest : Fields β) :
    Fields (Option α × β) :=
  field [name] (Decoder.nullable read) (some none) rest

/-- The values of the fields read so far. -/
def Slots : {τ : Type} → Fields τ → Type
  | _, done => Unit
  | _, @field α _ _ _ _ rest => Option α × Slots rest

def empty : {τ : Type} → (fields : Fields τ) → Slots fields
  | _, done => ()
  | _, field _ _ _ rest => (none, empty rest)

/-- Reads one member of an object into the field of its name; a name that no field has is passed
over. -/
def put {τ : Type} (fields : Fields τ) (name : String) (value : Json) (slots : Slots fields) :
    Except Mismatch (Slots fields) :=
  match fields, slots with
  | done, slots => .ok slots
  | field names read _ rest, slots =>
    let (slot, others) := (show Option _ × Slots rest from slots)
    if names.contains name then
      match slot with
      | some _ => .error (.repeatedField (names.headD ""))
      | none =>
        match read value with
        | .ok x => .ok (some x, others)
        | .error e => .error e
    else
      match put rest name value others with
      | .ok others => .ok (slot, others)
      | .error e => .error e

def putAll {τ : Type} (fields : Fields τ) :
    List (String × Json) → Slots fields → Except Mismatch (Slots fields)
  | [], slots => .ok slots
  | (name, value) :: members, slots =>
    match put fields name value slots with
    | .ok slots => putAll fields members slots
    | .error e => .error e

/-- The record of the fields read, with the fields that are not written. -/
def finish {τ : Type} (fields : Fields τ) (slots : Slots fields) : Except Mismatch τ :=
  match fields, slots with
  | done, _ => .ok ()
  | field names _ absent rest, slots =>
    let (slot, others) := (show Option _ × Slots rest from slots)
    match slot <|> absent with
    | none => .error (.missingField (names.headD ""))
    | some x =>
      match finish rest others with
      | .ok xs => .ok (x, xs)
      | .error e => .error e

def count : {τ : Type} → Fields τ → Nat
  | _, done => 0
  | _, field _ _ _ rest => rest.count + 1

/-- Reads the fields by position; `index` counts those before. `total` is the number of all items
and `wanted` says what was asked for. -/
def readItems (total : Nat) (wanted : String) :
    {τ : Type} → Fields τ → Nat → List Json → Except Mismatch τ
  | _, done, _, items =>
    if items.isEmpty then .ok () else .error (.wrongLength total "fewer elements in array")
  | _, field _ read _ rest, index, item :: items =>
    match read item with
    | .error e => .error e
    | .ok x =>
      match readItems total wanted rest (index + 1) items with
      | .ok xs => .ok (x, xs)
      | .error e => .error e
  | _, field _ _ absent rest, index, [] =>
    match absent with
    | none => .error (.wrongLength index wanted)
    | some x =>
      match readItems total wanted rest (index + 1) [] with
      | .ok xs => .ok (x, xs)
      | .error e => .error e

end Fields

/-- Decodes a record from an object or an array. -/
def Fields.read {τ : Type} (fields : Fields τ) (name : String) : Decoder τ
  | .obj members =>
    match fields.putAll members fields.empty with
    | .ok slots => fields.finish slots
    | .error e => .error e
  | .arr items =>
    let plural := if fields.count = 1 then "" else "s"
    let wanted :=
      "struct " ++ name ++ " with " ++ toString fields.count ++ " element" ++ plural
    fields.readItems items.length wanted 0 items
  | other => .error (.wrongType other ("struct " ++ name))

end LanguageClient
