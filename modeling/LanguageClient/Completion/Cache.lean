import LanguageClient.Completion.Filter
import LanguageClient.Completion.Words
import LanguageClient.RequestId

/-!
# The last completion answer

While only characters of the word at the caret are typed or erased, the last
answer of a server serves again, filtered anew. An incomplete answer never
does.
-/
namespace LanguageClient

/-- An answer to a completion request and where it was asked for. -/
structure CompletionCache where
  requestId : RequestId
  uri : String
  origin : Position
  originPrefix : String
  isIncomplete : Bool
  received : List CompletionItem
  filtered : List CompletionItem
  deriving Repr, Inhabited

namespace CompletionCache

/-- Keeps an answer. -/
def ofList (requestId : RequestId) (uri : String) (origin : Position) (originPrefix : String)
    (list : CompletionList) (words : WordSet) : CompletionCache :=
  { requestId, uri, origin, originPrefix
    isIncomplete := list.isIncomplete
    received := list.items
    filtered := Completion.filter list.items (words.before originPrefix.toList) }

/-- What a text has behind a given beginning. -/
def stripPrefix? : List Char → List Char → Option (List Char)
  | [], s => some s
  | c :: cs, d :: s => if c = d then stripPrefix? cs s else none
  | _ :: _, [] => none

/-- Whether the answer serves for a caret in a document; `linePrefix` is the text of the caret's
line before it. -/
def canReuse (c : CompletionCache) (uri : String) (caret : Position) (linePrefix : String)
    (words : WordSet) : Bool :=
  if c.isIncomplete || uri != c.uri || caret.line != c.origin.line then false
  else
    let (short, long) :=
      if c.origin.character ≤ caret.character then (c.originPrefix, linePrefix)
      else (linePrefix, c.originPrefix)
    match stripPrefix? short.toList long.toList with
    | some rest => words.allWord rest
    | none => false

/-- The items for the word before the caret. -/
def refilter (c : CompletionCache) (linePrefix : String) (words : WordSet) :
    List CompletionItem :=
  Completion.filter c.received (words.before linePrefix.toList)

end CompletionCache

end LanguageClient
