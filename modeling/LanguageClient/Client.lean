import LanguageClient.Message.Incoming
import LanguageClient.Message.Params
import LanguageClient.Registry.Handshake

/-!
# The client side of a connection

The client keeps the state of one connection: where the handshake stands,
which requests wait for an answer, what the server can do, and the messages
that wait to be sent. It does no input or output: a caller takes the outgoing
messages, and gives it the bodies that come in.

* `connect`, `request`, `notify`, `shutdown`, `exit` queue messages.
* `receive` takes a body in and says what came of it.
-/
namespace LanguageClient

/-- Where the connection stands. -/
inductive ClientState where
  | uninitialized
  | initializing
  | running
  | shuttingDown
  | exited
  deriving DecidableEq, Repr, Inhabited

namespace ClientState

def name : ClientState → String
  | uninitialized => "Uninitialized"
  | initializing => "Initializing"
  | running => "Running"
  | shuttingDown => "ShuttingDown"
  | exited => "Exited"

end ClientState

/-- What a caller may want that a state does not allow. -/
inductive ClientAction where
  | connect
  | sendRequest
  | sendNotification
  deriving DecidableEq, Repr

namespace ClientAction

/-- An action in words. -/
def words : ClientAction → String
  | connect => "initialize"
  | sendRequest => "send a request"
  | sendNotification => "send a notification"

end ClientAction

/-- A call that the state of the client does not allow. -/
structure ClientError where
  action : ClientAction
  state : ClientState
  deriving DecidableEq, Repr

namespace ClientError

def message (e : ClientError) : String :=
  "cannot " ++ e.action.words ++ " while " ++ e.state.name

end ClientError

/-- What a client is set up with. -/
structure ClientOptions where
  languageIds : List String
  rootUri : Option String
  initializationOptions : Option Json
  settings : Json
  deriving Repr, Inhabited

/-- A request that waits for its answer, with what its sender wants back with it. -/
structure PendingRequest (Context : Type) where
  id : Int
  method : String
  context : Option Context
  deriving Repr

/-- What came of a body that was taken in. -/
inductive ClientEvent (Context : Type) where
  | initialized (capabilities : Json)
  | response (id : Int) (method : String) (result : Json) (context : Option Context)
  | error (id : Int) (method : String) (error : ResponseError)
  | notification (note : ServerNotification)
  | capabilitiesChanged
  | exited
  deriving Repr

/-- The client side of a connection. -/
structure Client (Context : Type) where
  options : ClientOptions
  state : ClientState
  nextId : Int
  pending : List (PendingRequest Context)
  registry : Registry
  capabilities : Json
  deferredShutdown : Bool
  outbound : List Outgoing
  deriving Repr

namespace Client

variable {Context : Type}

/-- A client that has sent nothing. -/
def new (options : ClientOptions) : Client Context :=
  { options, state := .uninitialized, nextId := 1, pending := [], registry := .empty,
    capabilities := .null, deferredShutdown := false, outbound := [] }

/-- Whether the handshake is done and the shutdown not begun. -/
def isRunning (c : Client Context) : Bool :=
  c.state = .running

def pending? (c : Client Context) (id : Int) : Option (PendingRequest Context) :=
  c.pending.find? fun p => p.id == id

/-! ## Sending -/

def enqueue (c : Client Context) (m : Outgoing) : Client Context :=
  { c with outbound := c.outbound ++ [m] }

/-- Queues a request under the next id and remembers it. -/
def enqueueRequest (c : Client Context) (method : String) (params : Option Json)
    (context : Option Context) : Int × Client Context :=
  let id := c.nextId
  let c := c.enqueue (.request id method params)
  (id, { c with nextId := id + 1, pending := c.pending ++ [⟨id, method, context⟩] })

/-- Starts the handshake. -/
def connect (c : Client Context) (processId : Nat) :
    Except ClientError Int × Client Context :=
  if c.state = .uninitialized then
    let params :=
      Params.handshake processId c.options.rootUri c.options.initializationOptions
    let (id, c) := c.enqueueRequest Method.start (some params) none
    (.ok id, { c with state := .initializing })
  else (.error ⟨.connect, c.state⟩, c)

/-- Sends a request; its answer comes back with the context. -/
def request (c : Client Context) (method : String) (params : Option Json)
    (context : Option Context) : Except ClientError Int × Client Context :=
  if c.state = .running then
    let (id, c) := c.enqueueRequest method params context
    (.ok id, c)
  else (.error ⟨.sendRequest, c.state⟩, c)

def notify (c : Client Context) (method : String) (params : Option Json) :
    Except ClientError Unit × Client Context :=
  if c.state = .running then (.ok (), c.enqueue (.notification method params))
  else (.error ⟨.sendNotification, c.state⟩, c)

/-- Begins the shutdown, or puts it off until the handshake is done. -/
def shutdown (c : Client Context) : Client Context :=
  match c.state with
  | .uninitialized => { c with deferredShutdown := true }
  | .initializing => { c with deferredShutdown := true }
  | .running =>
    let (_, c) := c.enqueueRequest Method.shutdown none none
    { c with state := .shuttingDown }
  | .shuttingDown => c
  | .exited => c

/-- Tells the server to exit and drops every request that waits. -/
def exit (c : Client Context) : Client Context :=
  if c.state = .exited then c
  else
    let c := c.enqueue (.notification Method.exit none)
    { c with state := .exited, deferredShutdown := false, pending := [] }

/-- The messages that wait to be sent, and the client without them. -/
def takeOutbound (c : Client Context) : List Outgoing × Client Context :=
  (c.outbound, { c with outbound := [] })

/-! ## Receiving -/

/-- Ends the handshake with the answer of the server. -/
def finishHandshake (c : Client Context) (result : Json) :
    List (ClientEvent Context) × Client Context :=
  let capabilities := (result.get? "capabilities").getD .null
  let c :=
    { c with
      capabilities := capabilities
      registry := Registry.ofHandshake capabilities c.options.languageIds }
  let c := c.enqueue (.notification Method.started (some (.obj [])))
  let c := { c with state := .running }
  let c := if c.deferredShutdown then { c with deferredShutdown := false }.shutdown else c
  ([.initialized capabilities], c)

/-- Takes in the answer to a request that waited. -/
def settle (c : Client Context) (p : PendingRequest Context)
    (outcome : Except ResponseError Json) : List (ClientEvent Context) × Client Context :=
  if p.method = Method.start then
    match outcome with
    | .ok result => c.finishHandshake result
    | .error e => ([.error p.id p.method e, .exited], c.exit)
  else if p.method = Method.shutdown then ([.exited], c.exit)
  else
    match outcome with
    | .ok result => ([.response p.id p.method result p.context], c)
    | .error e => ([.error p.id p.method e], c)

/-- Takes in a response; one to no request that waits is dropped. -/
def onResponse (c : Client Context) (id : RequestId) (outcome : Except ResponseError Json) :
    List (ClientEvent Context) × Client Context :=
  match id.number?.bind c.pending? with
  | some p => { c with pending := c.pending.filter fun q => q.id != p.id }.settle p outcome
  | none => ([], c)

/-- The settings of one dotted section. -/
def settingsAt (settings : Json) : List String → Json
  | [] => settings
  | key :: keys =>
    match settings.get? key with
    | some value => settingsAt value keys
    | none => .null

/-- The settings that a server asks for: those of a section, or all of them. -/
def configurationValue (settings : Json) (item : ConfigurationItem) : Json :=
  match item.sectionName with
  | none => settings
  | some name =>
    if name = "" then settings
    else settingsAt settings ((name.toList.splitOn '.').map String.ofList)

/-- What a request of the server does to the registry. -/
def registryAfter (reg : Registry) : ServerRequest → Registry
  | .registerCapability requests => reg.register requests
  | .unregisterCapability requests => reg.unregister requests
  | _ => reg

/-- What a request of the server tells the caller. -/
def requestEvents : ServerRequest → List (ClientEvent Context)
  | .registerCapability _ => [.capabilitiesChanged]
  | .unregisterCapability _ => [.capabilitiesChanged]
  | _ => []

def answer (options : ClientOptions) : ServerRequest → Except ResponseError Json
  | .registerCapability _ => .ok .null
  | .unregisterCapability _ => .ok .null
  | .configuration items => .ok (.arr (items.map (configurationValue options.settings)))
  | .workspaceFolders => .ok (Params.workspaceFolders options.rootUri)
  | .workDoneProgressCreate => .ok .null
  | .malformed method reason =>
    .error (.plain ResponseError.invalidParams
      ("Invalid params for " ++ method ++ ": " ++ reason.message))
  | .unknown method =>
    .error (.plain ResponseError.methodNotFound ("Method not found: " ++ method))

/-- Takes in a request of the server and answers it, unless the client has exited. -/
def onServerRequest (c : Client Context) (id : RequestId) (r : ServerRequest) :
    List (ClientEvent Context) × Client Context :=
  let c := { c with registry := registryAfter c.registry r }
  (requestEvents r,
    if c.state = .exited then c else c.enqueue (.reply id (answer c.options r)))

def receive (c : Client Context) (body : List UInt8) :
    List (ClientEvent Context) × Client Context :=
  match Incoming.decode body with
  | .error _ => ([], c)
  | .ok (.response id outcome) => c.onResponse id outcome
  | .ok (.request id r) => c.onServerRequest id r
  | .ok (.notification (.unknown _)) => ([], c)
  | .ok (.notification note) => ([.notification note], c)

end Client

end LanguageClient
