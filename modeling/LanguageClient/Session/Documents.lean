import LanguageClient.Query
import LanguageClient.Session.Basic

/-!
# Documents in a session

Opening, changing, saving and closing a document with the server of a
session, and asking about it. A document belongs to the caller: each
operation gives it back as it then is, also when the operation fails.

* `didOpen` and `didClose` attach a document to the session and detach it.
* `ask` opens a document first if it has to, and brings the server's copy up
  to date.
-/
namespace LanguageClient

/-- What became of a request. -/
inductive RequestOutcome where
  | sent (id : Int)
  /-- Answered by the last completion answer. -/
  | cached (items : List CompletionItem)
  | unsupported
  deriving Repr, Inhabited

namespace Session

/-- Opens a document with the server, unless it is open or the server does not want it; says
whether it was opened. -/
def didOpen (s : Session) (doc : Document) (now : Nat) :
    Except ClientError Bool × Document × Session :=
  if doc.isOpen || !s.supports Method.didOpen doc then (.ok false, doc, s)
  else
    let params := Params.didOpen doc.uri doc.languageId doc.version doc.text
    match s.notify Method.didOpen params now with
    | (.error e, s) => (.error e, doc, s)
    | (.ok (), s) => (.ok true, { doc with server := some s.name }, s)

/-- Brings the server's copy of a document to a text, in the way the server asked for; says
whether anything was sent. -/
def didChange (s : Session) (doc : Document) (text : String) (now : Nat) :
    Except ClientError Bool × Document × Session :=
  if !s.holds doc then (.ok false, doc, s)
  else
    match s.options? Method.didChange doc with
    | none => (.ok false, doc, s)
    | some options =>
      match doc.syncTo (.ofOptions options) text with
      | (none, doc) => (.ok false, doc, s)
      | (some batch, doc) =>
        let params := Params.didChange doc.uri batch.version batch.events
        match s.notify Method.didChange params now with
        | (.error e, s) => (.error e, doc, s)
        | (.ok (), s) => (.ok true, doc, s)

/-- Whether a server wants the text of a saved document. -/
def wantsText (options : Json) : Bool :=
  ((options.get? "includeText").bind Json.bool?).getD false

/-- Tells the server that a document was saved, after its changes, and with its text if the
server wants it; says whether the server was told. -/
def didSave (s : Session) (doc : Document) (text : String) (now : Nat) :
    Except ClientError Bool × Document × Session :=
  if !s.holds doc then (.ok false, doc, s)
  else
    match s.options? Method.didSave doc with
    | none => (.ok false, doc, s)
    | some options =>
      match s.didChange doc text now with
      | (.error e, doc, s) => (.error e, doc, s)
      | (.ok _, doc, s) =>
        let saved := if wantsText options then some doc.text else none
        match s.notify Method.didSave (Params.didSave doc.uri saved) now with
        | (.error e, s) => (.error e, doc, s)
        | (.ok (), s) => (.ok true, doc, s)

/-- Forgets the last completion answer if it is about a document. -/
def dropCache (s : Session) (uri : String) : Session :=
  if s.cache.any fun c => c.uri = uri then { s with cache := none } else s

/-- Closes a document with the server, after its changes; says whether it was open. -/
def didClose (s : Session) (doc : Document) (text : String) (now : Nat) :
    Except ClientError Bool × Document × Session :=
  if !s.holds doc then (.ok false, doc, s)
  else
    match s.didChange doc text now with
    | (.error e, doc, s) => (.error e, doc, s)
    | (.ok _, doc, s) =>
      let (told, s) :=
        if s.supports Method.didClose doc then
          s.notify Method.didClose (Params.document doc.uri) now
        else (.ok (), s)
      match told with
      | .error e => (.error e, doc, s)
      | .ok () => (.ok true, { doc with server := none }, s.dropCache doc.uri)

/-- Whether a document is open with the server once it has been tried to open it. -/
def ensureOpen (s : Session) (doc : Document) (now : Nat) :
    Except ClientError Bool × Document × Session :=
  if s.holds doc then (.ok true, doc, s) else s.didOpen doc now

/-- Sends a request about a document, of which the server has the given text then. -/
def send (s : Session) (doc : Document) (text : String) (q : DocumentQuery) (now : Nat) :
    Except ClientError RequestOutcome × Document × Session :=
  if !s.supports q.method doc then (.ok .unsupported, doc, s)
  else
    match s.ensureOpen doc now with
    | (.error e, doc, s) => (.error e, doc, s)
    | (.ok false, doc, s) => (.ok .unsupported, doc, s)
    | (.ok true, doc, s) =>
      match s.didChange doc text now with
      | (.error e, doc, s) => (.error e, doc, s)
      | (.ok _, doc, s) =>
        match s.request q.method (q.params doc.uri) (some (q.context doc.uri)) now with
        | (.error e, s) => (.error e, doc, s)
        | (.ok id, s) => (.ok (.sent id), doc, s)

/-- The items that answer a request without the server. -/
def cached? (s : Session) (doc : Document) : DocumentQuery → Option (List CompletionItem)
  | .completion position linePrefix => do
    let cache ← s.cache
    if cache.canReuse doc.uri position linePrefix s.completion.words then
      some (cache.refilter linePrefix s.completion.words)
    else none
  | _ => none

/-- Asks about a document whose text is given. -/
def ask (s : Session) (doc : Document) (text : String) (q : DocumentQuery) (now : Nat) :
    Except ClientError RequestOutcome × Document × Session :=
  match s.cached? doc q with
  | some items => (.ok (.cached items), doc, s)
  | none => s.send doc text q now

/-- Asks for symbols of the workspace; the first language of the server decides whether it has
any. -/
def workspaceSymbols (s : Session) (query : String) (now : Nat) :
    Except ClientError RequestOutcome × Session :=
  let languageId := s.languageIds.headD ""
  if !s.client.registry.supports Method.workspaceSymbol languageId none then
    (.ok .unsupported, s)
  else
    match s.request Method.workspaceSymbol (Params.workspaceSymbols query) none now with
    | (.error e, s) => (.error e, s)
    | (.ok id, s) => (.ok (.sent id), s)

end Session

end LanguageClient
