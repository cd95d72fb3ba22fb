import LanguageClient.Session.Documents
import LanguageClient.Session.Pump

/-!
# A workspace

A workspace has the sessions with all servers and the documents of the host.
A language is routed to the first server, by name, that knows it; a document
that is open belongs to the server it is open with. What goes wrong is told
to the host as a status.
-/
namespace LanguageClient

/-- The sessions by name, in the order of names, the server of each language, and the documents.
-/
structure Workspace where
  sessions : Keyed Session
  routes : Keyed String
  documents : DocumentStore
  completion : CompletionSettings
  /-- The connections of removed sessions, over which what was sent is still written. -/
  departed : Keyed Connection
  deriving Repr

namespace Workspace

/-- Routes the languages of a server that are not routed yet. -/
def addRoutes (routes : Keyed String) (name : String) (languageIds : List String) :
    Keyed String :=
  languageIds.foldl
    (fun routes id => if (routes.get? id).isSome then routes else routes.put id name) routes

/-- The routes to some sessions; of several that know a language the first has it. -/
def routesOf (sessions : Keyed Session) : Keyed String :=
  sessions.foldl (fun routes (name, s) => addRoutes routes name s.languageIds) []

/-- A workspace without documents; of several sessions with one name the last stays. -/
def ofSessions (sessions : List Session) (completion : CompletionSettings) : Workspace :=
  let sessions := sessions.foldl (fun all s => Keyed.insert s.name s all) []
  { sessions, routes := routesOf sessions, documents := [], completion, departed := [] }

def isAlive (w : Workspace) : Bool :=
  !w.sessions.isEmpty

/-- The name of the server for a language. -/
def route? (w : Workspace) (languageId : String) : Option String :=
  w.routes.get? languageId

/-- The name of the server a document is open with, or would be. -/
def serverFor? (w : Workspace) (doc : Document) : Option String :=
  doc.server <|> w.route? doc.languageId

/-- When the first session wants to be pumped. -/
def nextDue (w : Workspace) : Option Nat :=
  (w.sessions.values.filterMap fun s => s.schedule.due).min?

/-- The workspace with a session and a document as they now are. -/
def store (w : Workspace) (name : String) (s : Session) (doc : Document) : Workspace :=
  { w with sessions := w.sessions.put name s, documents := w.documents.put doc.uri doc }

/-- The result of a call to a session; an error becomes a status. -/
def report {α : Type} (name : String) : Except ClientError α → List HostCall × Option α
  | .ok value => ([], some value)
  | .error e => ([.status (name ++ ": " ++ e.message)], none)

/-- The status for a request that no server answers. -/
def unsupported (method : String) : HostCall :=
  .status ("Method is not supported by server: " ++ method)

/-- The workspace without some of its sessions: their documents are detached and their
diagnostics cleared. -/
def forget (w : Workspace) (gone stay : Keyed Session) : List HostCall × Workspace :=
  (gone.flatMap fun (_, s) => s.diagnostics.uris.map fun uri => .diagnostics uri [],
    { w with
      sessions := stay
      documents := gone.foldl (fun docs (name, _) => docs.detach name) w.documents
      departed := w.departed ++ gone.map fun (name, s) => (name, s.connection.release) })

/-! ## Connections -/

/-- Something happens on the connection of a server, or on the one it left behind. -/
def onConnection (w : Workspace) (name : String) (f : Connection → Connection) : Workspace :=
  { w with
    sessions := w.sessions.map fun (key, s) =>
      (key, if key = name then { s with connection := f s.connection } else s)
    departed := w.departed.map fun (key, c) => (key, if key = name then f c else c) }

/-- The connection of a server, or the one it left behind. -/
def connection? (w : Workspace) (name : String) : Option Connection :=
  ((w.sessions.get? name).map Session.connection) <|> w.departed.get? name

/-- Lets the loops of all connections run until they wait. -/
def settle (w : Workspace) : Workspace :=
  { w with
    sessions := w.sessions.map fun (name, s) =>
      (name, { s with connection := s.connection.settle })
    departed := w.departed.map fun (name, c) => (name, c.settle) }

end Workspace

end LanguageClient
