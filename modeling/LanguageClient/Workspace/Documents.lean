import LanguageClient.Workspace.Basic

/-!
# The operations of a workspace

What the host does with documents and servers. The calls to the host come
with the result of each operation.
-/
namespace LanguageClient.Workspace

/-- Adds a document and opens it with its server; says whether it was opened now. -/
def openDocument (w : Workspace) (doc : Document) (now : Nat) :
    Bool × List HostCall × Workspace :=
  let (doc, documents) := w.documents.track doc
  let w := { w with documents := documents }
  match w.route? doc.languageId with
  | none => (false, [], w)
  | some name =>
    match w.sessions.get? name with
    | none => (false, [], w)
    | some s =>
      let (result, doc, s) := s.didOpen doc now
      let (calls, opened) := report name result
      (opened.getD false, calls, w.store name s doc)

/-- Does something with a document and the session it is open with. -/
def withOpenDocument (w : Workspace) (uri : String)
    (act : Session → Document → Except ClientError Bool × Document × Session) :
    List HostCall × Workspace :=
  match w.documents.get? uri with
  | none => ([], w)
  | some doc =>
    match doc.server with
    | none => ([], w)
    | some name =>
      match w.sessions.get? name with
      | none => ([], w)
      | some s =>
        let (result, doc, s) := act s doc
        ((report name result).1, w.store name s doc)

/-- Takes a new text of an open document. -/
def changeDocument (w : Workspace) (uri text : String) (now : Nat) :
    List HostCall × Workspace :=
  w.withOpenDocument uri fun s doc => s.didChange doc text now

def saveDocument (w : Workspace) (uri text : String) (now : Nat) :
    List HostCall × Workspace :=
  w.withOpenDocument uri fun s doc => s.didSave doc text now

/-- Closes a document and forgets it. -/
def closeDocument (w : Workspace) (uri text : String) (now : Nat) :
    List HostCall × Workspace :=
  let (calls, w) := w.withOpenDocument uri fun s doc => s.didClose doc text now
  (calls, { w with documents := w.documents.erase uri })

/-- Tells the host of diagnostics that some sessions held back for a document. -/
def shownIn (uri : String) : Keyed Session → List HostCall × Keyed Session
  | [] => ([], [])
  | (name, s) :: rest =>
    let (calls, s) := s.shown uri
    let (more, rest) := shownIn uri rest
    (calls ++ more, (name, s) :: rest)

/-- A document is shown: tells the host of diagnostics that were held back for it. -/
def documentShown (w : Workspace) (uri : String) : List HostCall × Workspace :=
  let (calls, sessions) := shownIn uri w.sessions
  (calls, { w with sessions := sessions })

/-- What the host is told of an outcome right away. -/
def outcomeCalls (method : String) (context : RequestContext) : RequestOutcome → List HostCall
  | .sent _ => []
  | .cached items => [.completion context items]
  | .unsupported => [unsupported method]

/-- Asks the server of a document about it. There is no outcome without a document and a server
for it, or when the client fails. -/
def ask (w : Workspace) (uri text : String) (q : DocumentQuery) (now : Nat) :
    Option RequestOutcome × List HostCall × Workspace :=
  match w.documents.get? uri with
  | none => (none, [], w)
  | some doc =>
    match w.serverFor? doc with
    | none => (none, [], w)
    | some name =>
      match w.sessions.get? name with
      | none => (none, [], w)
      | some s =>
        let (result, doc, s) := s.ask doc text q now
        let (calls, outcome) := report name result
        (outcome, calls ++ outcome.toList.flatMap (outcomeCalls q.method (q.context doc.uri)),
          w.store name s doc)

/-- Asks the server of a language for symbols of the workspace. -/
def workspaceSymbols (w : Workspace) (languageId query : String) (now : Nat) :
    Option RequestOutcome × List HostCall × Workspace :=
  match w.route? languageId with
  | none => (none, [], w)
  | some name =>
    match w.sessions.get? name with
    | none => (none, [], w)
    | some s =>
      let (result, s) := s.workspaceSymbols query now
      let (calls, outcome) := report name result
      (outcome,
        calls ++ (match outcome with
          | some .unsupported => [unsupported Method.workspaceSymbol]
          | _ => []),
        { w with sessions := w.sessions.put name s })

/-- Begins to shut a server down: nothing is routed to it any more and its documents are
detached. Says whether there is such a server. -/
def shutdownServer (w : Workspace) (name : String) (now : Nat) : Bool × Workspace :=
  match w.sessions.get? name with
  | none => (false, w)
  | some s =>
    (true,
      { w with
        sessions := w.sessions.put name (s.shutdown now)
        routes := w.routes.filter fun (_, server) => server ≠ name
        documents := w.documents.detach name })

/-- Begins to shut all servers down; they go as they are pumped. -/
def shutdownAll (w : Workspace) (now : Nat) : Workspace :=
  { w with sessions := w.sessions.map fun (name, s) => (name, s.shutdown now) }

/-- Ends all sessions without a shutdown. -/
def killAll (w : Workspace) (now : Nat) : List HostCall × Workspace :=
  w.forget (w.sessions.map fun (name, s) => (name, s.kill now)) []

end LanguageClient.Workspace
