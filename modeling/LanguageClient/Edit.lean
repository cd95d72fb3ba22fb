import LanguageClient.Position

/-!
# Edits

A change event replaces a range of a document, or all of it. Events apply in
order, each to the text that the ones before it left; an event whose range
does not resolve there, or ends before it starts, makes the whole list
inapplicable.

* `ChangeEvent.applyAll?` applies a list of events.
-/
namespace LanguageClient

/-- A change of a document: new text for a range, or for all of it. -/
structure ChangeEvent where
  range : Option Range
  text : String
  deriving DecidableEq, Repr, Inhabited

namespace ChangeEvent

def full (text : String) : ChangeEvent := ⟨none, text⟩

def ranged (range : Range) (text : String) : ChangeEvent := ⟨some range, text⟩

def isFull (e : ChangeEvent) : Bool :=
  e.range.isNone

def splice? (text : List Char) (range : Range) (new : List Char) : Option (List Char) := do
  let (before, _) ← range.start.split? text
  let (through, after) ← range.stop.split? text
  if before.length ≤ through.length then some (before ++ new ++ after) else none

/-- The text after one event. -/
def applyTo? (text : List Char) (e : ChangeEvent) : Option (List Char) :=
  match e.range with
  | none => some e.text.toList
  | some range => splice? text range e.text.toList

def applyAll? (text : List Char) : List ChangeEvent → Option (List Char)
  | [] => some text
  | e :: events =>
    match applyTo? text e with
    | some text => applyAll? text events
    | none => none

/-- `applyAll?` on strings. -/
def replay? (text : String) (events : List ChangeEvent) : Option String :=
  String.ofList <$> applyAll? text.toList events

def fields : Fields (Option Range × String × Unit) :=
  .optional "range" Range.decode (.required "text" Decoder.string .done)

def decode : Decoder ChangeEvent := fun j =>
  (fun (range, text, ()) => ⟨range, text⟩) <$> fields.read "ChangeEvent" j

def toJson (e : ChangeEvent) : Json :=
  .obj (Json.optional "range" (e.range.map Range.toJson) ++ [("text", .str e.text)])

end ChangeEvent

structure TextEdit where
  range : Range
  newText : String
  deriving DecidableEq, Repr, Inhabited

namespace TextEdit

def fields : Fields (Range × String × Unit) :=
  .required "range" Range.decode (.required "newText" Decoder.string .done)

def decode : Decoder TextEdit := fun j =>
  (fun (range, newText, ()) => ⟨range, newText⟩) <$> fields.read "TextEdit" j

def toJson (e : TextEdit) : Json :=
  .obj [("newText", .str e.newText), ("range", e.range.toJson)]

end TextEdit

structure Location where
  uri : String
  range : Range
  deriving DecidableEq, Repr, Inhabited

namespace Location

def fields : Fields (String × Range × Unit) :=
  .required "uri" Decoder.string (.required "range" Range.decode .done)

def decode : Decoder Location := fun j =>
  (fun (uri, range, ()) => ⟨uri, range⟩) <$> fields.read "Location" j

def toJson (l : Location) : Json :=
  .obj [("range", l.range.toJson), ("uri", .str l.uri)]

end Location

/-- White space wishes of a formatting request. -/
structure FormattingOptions where
  tabSize : UInt32
  insertSpaces : Bool
  trimTrailingWhitespace : Option Bool
  deriving DecidableEq, Repr

namespace FormattingOptions

/-- Four columns a tab, written as spaces. -/
def standard : FormattingOptions := ⟨4, true, none⟩

instance : Inhabited FormattingOptions := ⟨standard⟩

def fields : Fields (UInt32 × Bool × Option Bool × Unit) :=
  .required "tabSize" Decoder.uint32 (.required "insertSpaces" Decoder.bool
    (.optional "trimTrailingWhitespace" Decoder.bool .done))

def decode : Decoder FormattingOptions := fun j =>
  (fun (tabSize, insertSpaces, trim, ()) => ⟨tabSize, insertSpaces, trim⟩) <$>
    fields.read "FormattingOptions" j

def toJson (o : FormattingOptions) : Json :=
  .obj ([("insertSpaces", .bool o.insertSpaces), ("tabSize", .int o.tabSize.toNat)] ++
    Json.optional "trimTrailingWhitespace" (o.trimTrailingWhitespace.map .bool))

end FormattingOptions

end LanguageClient
