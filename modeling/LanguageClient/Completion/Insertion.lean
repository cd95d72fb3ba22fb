import LanguageClient.Completion.Item
import LanguageClient.Completion.Words

/-!
# Inserting a completion item

An item with an edit of its own is inserted by it; any other replaces the
word around the caret. A call gets its parentheses, with the caret between
them, unless the text or the document has some there already.
-/
namespace LanguageClient.Completion

/-- What inserting an item does to the document. -/
structure Insertion where
  range : Range
  text : String
  isSnippet : Bool
  caret : Position
  additional : List TextEdit
  deriving DecidableEq, Repr, Inhabited

/-- Whether an opening parenthesis stands at a position on the caret's line. -/
def parenFollows (line : List Char) (lineNumber : UInt32) (place : Position) : Bool :=
  place.line = lineNumber &&
    match Utf16.split? line place.character.toNat with
    | some (_, after) => after.head? = some '('
    | none => false

/-- The range, text and kind of an item's insertion before parentheses are added. There is none
if the caret is not on the line. -/
def plain? (item : CompletionItem) (line : List Char) (caret : Position) (words : WordSet) :
    Option (Range × String × Bool) :=
  match item.textEdit with
  | some edit => some (edit.range, edit.newText, item.isSnippet)
  | none => do
    let (left, right) ← Utf16.split? line caret.character.toNat
    let before := UInt32.ofNat (Utf16.length (words.before left))
    let after := UInt32.ofNat (Utf16.length (words.after right))
    let range : Range :=
      ⟨⟨caret.line, caret.character - before⟩, ⟨caret.line, caret.character + after⟩⟩
    match item.insertText with
    | some text => some (range, if item.isSnippet then item.label else text, false)
    | none => some (range, item.label, false)

/-- The insertion of an item at a caret. `line` is the caret's line without its terminator. -/
def insertion? (item : CompletionItem) (line : List Char) (caret : Position) (words : WordSet)
    (callParens : Bool) : Option Insertion := do
  let (range, text, isSnippet) ← plain? item line caret words
  let callable := item.kind.any ItemKind.isCallable
  let parens :=
    callParens && !isSnippet && callable && !text.toList.contains '(' &&
      !parenFollows line caret.line range.stop
  let text := if parens then text ++ "()" else text
  let reached := range.start.after text.toList
  let caret := if parens then { reached with character := reached.character - 1 } else reached
  some ⟨range, text, isSnippet, caret, item.additionalTextEdits⟩

end LanguageClient.Completion
