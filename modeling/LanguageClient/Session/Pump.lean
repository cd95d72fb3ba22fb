import LanguageClient.Message.Answers
import LanguageClient.Session.Basic

/-!
# Pumping a session

`pump` takes in all that has come from the server, tells the host of it, and
sends what the client has to say. When the client has exited, the session is
torn down.
-/
namespace LanguageClient.Session

/-- Takes in the answer to a request about a document. -/
def onAnswer (s : Session) (id : Int) (method : String) (result : Json)
    (context : RequestContext) : List HostCall × Session :=
  if method = Method.completion then
    let cache :=
      CompletionCache.ofList (.number id) context.uri context.position context.linePrefix
        (Answers.completionList result) s.completion.words
    ([.completion context cache.filtered], { s with cache := some cache })
  else if method = Method.hover then
    ((Answers.hoverText? result).toList.map (.hover context), s)
  else if method = Method.signatureHelp then
    ((Answers.signatureLabel? result).toList.map (.signature context), s)
  else if [Method.definition, Method.references, Method.implementation, Method.declaration,
      Method.typeDefinition].contains method then
    ([.locations method context (Answers.locations result)], s)
  else if method = Method.formatting || method = Method.rangeFormatting then
    ([.edits context (Answers.textEdits result)], s)
  else ([.response method (some context) result], s)

/-- Takes in a notification. A message that was the last to be logged is not logged again. -/
def onNotification (s : Session) (visible : String → Bool) :
    ServerNotification → List HostCall × Session
  | .publishDiagnostics uri _ items =>
    let diagnostics := s.diagnostics.publish uri items (visible uri)
    (if visible uri then [.diagnostics uri (diagnostics.byLine uri)] else [],
      { s with diagnostics := diagnostics })
  | .logMessage kind text =>
    if s.lastLog = some (kind, text) then ([], s)
    else ([.logMessage s.name kind text], { s with lastLog := some (kind, text) })
  | .showMessage kind text => ([.showMessage s.name kind text], s)
  | .progress token value => ([.progress s.name token value], s)
  | .unknown _ => ([], s)

def onEvent (s : Session) (visible : String → Bool) :
    ClientEvent RequestContext → List HostCall × Session
  | .initialized _ => ([.initialized s.name], { s with capabilitiesChanged := true })
  | .response _ method result none => ([.response method none result], s)
  | .response id method result (some context) => s.onAnswer id method result context
  | .error _ method e => ([.failed s.name method e], s)
  | .notification note => s.onNotification visible note
  | .capabilitiesChanged => ([], { s with capabilitiesChanged := true })
  | .exited => ([], s)

def onEvents (s : Session) (visible : String → Bool) :
    List (ClientEvent RequestContext) → List HostCall × Session
  | [] => ([], s)
  | event :: events =>
    let (calls, s) := s.onEvent visible event
    let (more, s) := s.onEvents visible events
    (calls ++ more, s)

def onBody (s : Session) (visible : String → Bool) (body : List UInt8) :
    List HostCall × Session :=
  let (events, client) := s.client.receive body
  { s with client := client }.onEvents visible events

/-- Takes in what waits in the connection, at most as many items as given; counts the frames. -/
def takeIn (visible : String → Bool) : Nat → Session → Nat × List HostCall × Session
  | 0, s => (0, [], s)
  | most + 1, s =>
    match s.connection.tryReceive with
    | (none, _) => (0, [], s)
    | (some .closed, connection) =>
      (0, [], { s with connection := connection, client := s.client.exit })
    | (some (.frame f), connection) =>
      let (calls, s) := { s with connection := connection }.onBody visible f.body
      let (handled, more, s) := takeIn visible most s
      (handled + 1, calls ++ more, s)

/-- Takes in all that waits and sends what there is to send; counts the frames. `visible` tells
which documents are shown. -/
def pump (s : Session) (visible : String → Bool) (now : Nat) : Nat × List HostCall × Session :=
  if s.tornDown then (0, [], s)
  else
    let (handled, calls, s) := takeIn visible s.connection.inbound.length s
    let (wrote, s) := s.flush now
    if s.client.state = .exited then
      (handled, calls ++ [.exited s.name], s.tearDown now)
    else if wrote then (handled, calls, s)
    else (handled, calls, { s with schedule := s.schedule.fired now })

end LanguageClient.Session
