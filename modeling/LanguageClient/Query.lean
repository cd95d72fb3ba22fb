import LanguageClient.Host
import LanguageClient.Message.Params
import LanguageClient.Method

/-!
# Requests about a document

What a user can ask about a document, with the method, the parameters and the
context that each request takes.
-/
namespace LanguageClient

/-- The requests that are answered with places. -/
inductive LocationKind where
  | definition
  | references
  | implementation
  | declaration
  | typeDefinition
  deriving DecidableEq, Repr, Inhabited

namespace LocationKind

def method : LocationKind → String
  | definition => Method.definition
  | references => Method.references
  | implementation => Method.implementation
  | declaration => Method.declaration
  | typeDefinition => Method.typeDefinition

end LocationKind

inductive DocumentQuery where
  | completion (position : Position) (linePrefix : String)
  | hover (position : Position)
  | signature (position : Position)
  | places (kind : LocationKind) (position : Position)
  | symbols
  | formatting (options : FormattingOptions) (range : Option Range)
  deriving Repr, Inhabited

namespace DocumentQuery

def method : DocumentQuery → String
  | completion _ _ => Method.completion
  | hover _ => Method.hover
  | signature _ => Method.signatureHelp
  | places kind _ => kind.method
  | symbols => Method.documentSymbol
  | formatting _ none => Method.formatting
  | formatting _ (some _) => Method.rangeFormatting

def params (uri : String) : DocumentQuery → Json
  | completion position _ => Params.documentPosition uri position
  | hover position => Params.documentPosition uri position
  | signature position => Params.documentPosition uri position
  | places .references position => Params.references uri position
  | places _ position => Params.documentPosition uri position
  | symbols => Params.document uri
  | formatting options range => Params.formatting uri options range

/-- Where a request is made: at its position, at the start of its range, or at the start of the
document. -/
def position : DocumentQuery → Position
  | completion position _ => position
  | hover position => position
  | signature position => position
  | places _ position => position
  | symbols => ⟨0, 0⟩
  | formatting _ none => ⟨0, 0⟩
  | formatting _ (some range) => range.start

/-- The text before the caret, which only completion needs again. -/
def linePrefix : DocumentQuery → String
  | completion _ linePrefix => linePrefix
  | _ => ""

/-- What comes back with the answer. -/
def context (uri : String) (q : DocumentQuery) : RequestContext :=
  ⟨uri, q.position, q.linePrefix⟩

end DocumentQuery

end LanguageClient
