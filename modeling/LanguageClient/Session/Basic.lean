import LanguageClient.Client
import LanguageClient.Completion.Cache
import LanguageClient.Completion.Insertion
import LanguageClient.Completion.Settings
import LanguageClient.Connection
import LanguageClient.Document
import LanguageClient.Host
import LanguageClient.Poll

/-!
# A session with one server

A session joins a client with the connection to its server and keeps what
the server said: diagnostics and the last completion answer. What the client
queues goes to the connection before an operation ends. Times are
milliseconds of one clock.
-/
namespace LanguageClient

structure Session where
  name : String
  connection : Connection
  client : Client RequestContext
  schedule : PollSchedule
  diagnostics : DiagnosticStore
  cache : Option CompletionCache
  completion : CompletionSettings
  /-- The message that was logged last. -/
  lastLog : Option (MessageKind × String)
  /-- Whether the server can do other things than when it was last asked. -/
  capabilitiesChanged : Bool
  tornDown : Bool
  /-- All that was handed to the connection, in its order. -/
  sent : List Outgoing
  deriving Repr

namespace Session

def languageIds (s : Session) : List String :=
  s.client.options.languageIds

def state (s : Session) : ClientState :=
  s.client.state

def supports (s : Session) (method : String) (doc : Document) : Bool :=
  s.client.registry.supports method doc.languageId doc.path

def options? (s : Session) (method : String) (doc : Document) : Option Json :=
  s.client.registry.options? method doc.languageId doc.path

/-- Whether a document would be opened with the server. -/
def handles (s : Session) (doc : Document) : Bool :=
  s.client.isRunning && s.supports Method.didOpen doc

/-- Whether a document is open with the server. -/
def holds (s : Session) (doc : Document) : Bool :=
  doc.server = some s.name

/-- Whether the session wants to be pumped. -/
def isDue (s : Session) (now : Nat) : Bool :=
  s.schedule.isDue now

/-- Hands the messages of the client to the connection; says whether there were any. Polling
starts anew behind them. -/
def flush (s : Session) (now : Nat) : Bool × Session :=
  let (messages, client) := s.client.takeOutbound
  if messages.isEmpty then (false, s)
  else
    (true,
      { s with
        client := client
        connection := s.connection.sendAll (messages.map Outgoing.frame)
        sent := s.sent ++ messages
        schedule := if s.tornDown then s.schedule else s.schedule.restart now })

/-- Starts a session over an open connection with the handshake. -/
def start (name : String) (connection : Connection) (options : ClientOptions)
    (completion : CompletionSettings) (processId now : Nat) : Session :=
  let s : Session :=
    { name, connection
      client := ((Client.new options).connect processId).2
      schedule := .stopped .standard
      diagnostics := .empty
      cache := none
      completion
      lastLog := none
      capabilitiesChanged := false
      tornDown := false
      sent := [] }
  (s.flush now).2

def notify (s : Session) (method : String) (params : Json) (now : Nat) :
    Except ClientError Unit × Session :=
  match s.client.notify method (some params) with
  | (.error e, client) => (.error e, { s with client := client })
  | (.ok (), client) => (.ok (), ({ s with client := client }.flush now).2)

/-- Sends a request and gives its id. -/
def request (s : Session) (method : String) (params : Json) (context : Option RequestContext)
    (now : Nat) : Except ClientError Int × Session :=
  match s.client.request method (some params) context with
  | (.error e, client) => (.error e, { s with client := client })
  | (.ok id, client) => (.ok id, ({ s with client := client }.flush now).2)

/-- Whether the server can do other things than when this was last asked. -/
def takeCapabilitiesChanged (s : Session) : Bool × Session :=
  (s.capabilitiesChanged, { s with capabilitiesChanged := false })

/-- The insertion of a completion item at a caret on a line. -/
def insertion? (s : Session) (item : CompletionItem) (line : String) (caret : Position) :
    Option Completion.Insertion :=
  Completion.insertion? item line.toList caret s.completion.words s.completion.callParens

/-- Tells the host of diagnostics that were held back for a document that is now shown. -/
def shown (s : Session) (uri : String) : List HostCall × Session :=
  match s.diagnostics.shown uri with
  | (some items, diagnostics) =>
    ([.diagnostics uri (Diagnostic.byLine items)], { s with diagnostics := diagnostics })
  | (none, _) => ([], s)

/-- Begins the shutdown; a later pump ends it. -/
def shutdown (s : Session) (now : Nat) : Session :=
  ({ s with client := s.client.shutdown }.flush now).2

/-- Sends what waits, closes the connection and polls no more. -/
def tearDown (s : Session) (now : Nat) : Session :=
  let s := (s.flush now).2
  { s with
    connection := s.connection.close
    schedule := s.schedule.stop
    cache := none
    tornDown := true }

/-- Ends the session without a shutdown. -/
def kill (s : Session) (now : Nat) : Session :=
  if s.tornDown then s else { s with client := s.client.exit }.tearDown now

end Session

end LanguageClient
