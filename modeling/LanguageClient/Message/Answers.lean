import LanguageClient.Completion.Item
import LanguageClient.Text.Blank

/-!
# Answers of a server

What the results of requests say, whatever of their shapes a server chose. A
result of none of the shapes says nothing.
-/
namespace LanguageClient.Answers

/-- A decoded value, or a default in the place of one of another shape. -/
def decodedOr {α : Type} (fallback : α) : Except Mismatch α → α
  | .ok x => x
  | .error _ => fallback

/-- The completion list in a result: items, or a list that may be incomplete. -/
def completionList : Json → CompletionList
  | .arr items =>
    ⟨false, decodedOr [] (Decoder.list CompletionItem.decode (.arr items))⟩
  | .obj members => decodedOr .empty (CompletionList.decode (.obj members))
  | _ => .empty

/-- The text of a marked string: a string, or an object with a value. -/
def markedText? : Json → Option String
  | .str s => some s
  | .obj members => ((Json.obj members).get? "value").bind Json.str?
  | _ => none

/-- The text of a hover, unless it is blank. Parts are set apart by an empty line. -/
def hoverText? (result : Json) : Option String := do
  let text ←
    match ← result.get? "contents" with
    | .arr parts =>
      some ("\n\n".intercalate ((parts.filterMap markedText?).filter (· ≠ "")))
    | other => markedText? other
  if (Blank.trim text.toList).isEmpty then none else some text

/-- The label of the active signature; without one that is there, of the first. -/
def signatureLabel? (result : Json) : Option String := do
  let signatures ← (← result.get? "signatures").arr?
  let active := ((result.get? "activeSignature").bind Json.nat?).getD 0
  let active := if active < signatures.length then active else 0
  let signature ← signatures[active]?
  (← signature.get? "label").str?

/-- A location, given as such or as a link to a target. -/
def location? (j : Json) : Option Location :=
  match j.get? "targetUri" with
  | some uri => do
    let uri ← uri.str?
    let range ← j.get? "targetSelectionRange" <|> j.get? "targetRange"
    let range ← (Range.decode range).toOption
    some ⟨uri, range⟩
  | none => (Location.decode j).toOption

/-- The locations in a result: one, or several. -/
def locations : Json → List Location
  | .arr items => items.filterMap location?
  | .obj members => (location? (.obj members)).toList
  | _ => []

def textEdits (result : Json) : List TextEdit :=
  if result.isNull then [] else decodedOr [] (Decoder.list TextEdit.decode result)

end LanguageClient.Answers
