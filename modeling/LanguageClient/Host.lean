import LanguageClient.Completion.Item
import LanguageClient.Diagnostic.Store
import LanguageClient.Message.Kind
import LanguageClient.Message.Outgoing

/-!
# What the host is told

The editor that hosts the client shows what servers say. Every operation
gives the list of the calls to the host in their order.
-/
namespace LanguageClient

/-- Where a request about a document was made; it comes back with the answer. -/
structure RequestContext where
  uri : String
  position : Position
  /-- The text of the caret's line before the caret. -/
  linePrefix : String
  deriving DecidableEq, Repr, Inhabited

inductive HostCall where
  | status (text : String)
  | logMessage (server : String) (kind : MessageKind) (text : String)
  | showMessage (server : String) (kind : MessageKind) (text : String)
  | initialized (server : String)
  | exited (server : String)
  | progress (server : String) (token value : Json)
  /-- The diagnostics of a document line by line; none clear it. -/
  | diagnostics (uri : String) (lines : List LineDiagnostics)
  | completion (context : RequestContext) (items : List CompletionItem)
  | hover (context : RequestContext) (text : String)
  | signature (context : RequestContext) (label : String)
  | locations (method : String) (context : RequestContext) (places : List Location)
  | edits (context : RequestContext) (edits : List TextEdit)
  | response (method : String) (context : Option RequestContext) (result : Json)
  | failed (server method : String) (error : ResponseError)
  deriving Repr, Inhabited

end LanguageClient
