import LanguageClient.Diagnostic.Basic
import LanguageClient.Json.Source
import LanguageClient.Message.Kind
import LanguageClient.Message.Outgoing
import LanguageClient.Registry.Basic

/-!
# Messages from a server

Every body that a server sends is a response, a request or a notification,
or it is not a message. A request with parameters that cannot be read is
still a request, so that it can be answered; a notification with such
parameters is not a message.

* `Incoming.decode` reads a body.
-/
namespace LanguageClient

structure ConfigurationItem where
  scopeUri : Option String
  sectionName : Option String
  deriving DecidableEq, Repr, Inhabited

inductive ServerRequest where
  | registerCapability (requests : List RegistrationRequest)
  | unregisterCapability (requests : List UnregistrationRequest)
  | configuration (items : List ConfigurationItem)
  | workspaceFolders
  | workDoneProgressCreate
  | malformed (method : String) (reason : Mismatch)
  | unknown (method : String)
  deriving DecidableEq, Repr, Inhabited

inductive ServerNotification where
  | publishDiagnostics (uri : String) (version : Option Int) (diagnostics : List Diagnostic)
  | logMessage (kind : MessageKind) (message : String)
  | showMessage (kind : MessageKind) (message : String)
  | progress (token value : Json)
  | unknown (method : String)
  deriving DecidableEq, Repr, Inhabited

/-- A message from a server. -/
inductive Incoming where
  | response (id : RequestId) (outcome : Except ResponseError Json)
  | request (id : RequestId) (request : ServerRequest)
  | notification (note : ServerNotification)
  deriving DecidableEq, Repr, Inhabited

inductive IncomingError where
  | notReadable
  | noIdAndNoMethod
  | noOutcome (id : RequestId)
  deriving DecidableEq, Repr

namespace IncomingError

/-- The text of a failure in the shape of a message. -/
def message : IncomingError → String
  | notReadable => "invalid JSON"
  | noIdAndNoMethod => "not a JSON-RPC message: message has neither id nor method"
  | noOutcome id =>
    "not a JSON-RPC message: response " ++ id.display ++ " has neither result nor error"

end IncomingError

/-! ## Parameters -/

namespace ConfigurationItem

def fields : Fields (Option String × Option String × Unit) :=
  .optional "scopeUri" Decoder.string (.optional "section" Decoder.string .done)

def decode : Decoder ConfigurationItem := fun j =>
  (fun (scopeUri, sectionName, ()) => ⟨scopeUri, sectionName⟩) <$>
    fields.read "ConfigurationItem" j

end ConfigurationItem

namespace ServerRequest

def registrationFields : Fields (List RegistrationRequest × Unit) :=
  .required "registrations" (Decoder.list RegistrationRequest.decode) .done

/-- The fields of the parameters that take capabilities back. The list goes by two names. -/
def unregistrationFields : Fields (List UnregistrationRequest × Unit) :=
  .field ["unregisterations", "unregistrations"] (Decoder.list UnregistrationRequest.decode) none
    .done

def configurationFields : Fields (List ConfigurationItem × Unit) :=
  .required "items" (Decoder.list ConfigurationItem.decode) .done

/-- A request whose parameters were read, or a malformed one. -/
def orMalformed {α : Type} (method : String) (make : α → ServerRequest) :
    Except Mismatch (α × Unit) → ServerRequest
  | .ok (x, ()) => make x
  | .error reason => malformed method reason

def decode (method : String) (params : Json) : ServerRequest :=
  if method = Method.registerCapability then
    orMalformed method registerCapability (registrationFields.read "RegistrationParams" params)
  else if method = Method.unregisterCapability then
    orMalformed method unregisterCapability
      (unregistrationFields.read "UnregistrationParams" params)
  else if method = Method.configuration then
    orMalformed method configuration (configurationFields.read "ConfigurationParams" params)
  else if method = Method.workspaceFolders then workspaceFolders
  else if method = Method.workDoneProgressCreate then workDoneProgressCreate
  else unknown method

end ServerRequest

namespace ServerNotification

def diagnosticsFields : Fields (String × Option Int × List Diagnostic × Unit) :=
  .required "uri" Decoder.string (.optional "version" Decoder.int64
    (.required "diagnostics" (Decoder.list Diagnostic.decode) .done))

def messageFields : Fields (MessageKind × String × Unit) :=
  .required "type" MessageKind.decode (.required "message" Decoder.string .done)

def progressFields : Fields (Json × Json × Unit) :=
  .required "token" Decoder.any (.defaulted "value" Decoder.any .null .done)

def decode (method : String) (params : Json) : Except Mismatch ServerNotification :=
  if method = Method.publishDiagnostics then
    (fun (uri, version, diagnostics, ()) => publishDiagnostics uri version diagnostics) <$>
      diagnosticsFields.read "PublishDiagnosticsParams" params
  else if method = Method.logMessage then
    (fun (kind, text, ()) => logMessage kind text) <$> messageFields.read "MessageParams" params
  else if method = Method.showMessage then
    (fun (kind, text, ()) => showMessage kind text) <$> messageFields.read "MessageParams" params
  else if method = Method.progress then
    (fun (token, value, ()) => progress token value) <$>
      progressFields.read "ProgressParams" params
  else .ok (unknown method)

end ServerNotification

/-! ## Envelopes -/

namespace Incoming

open Json (Source)

/-- The values of some fields in a text: by name in an object, where a field may not be written
twice, or by position in an array, which may not have more items. -/
def fieldSources? (names : List String) : Source → Option (List (Option Source))
  | .object members =>
    if members.any (fun (name, _) => name.isNone) then none
    else
      names.mapM fun name =>
        match members.filter fun (key, _) => key == some name with
        | [] => some none
        | [(_, value)] => some (some value)
        | _ => none
  | .array items =>
    if names.length < items.length then none
    else some ((items.map some ++ List.replicate names.length none).take names.length)
  | _ => none

/-- Reads a field that may be left out or `null`. -/
def nullable? {α : Type} (read : Source → Option α) : Option Source → Option (Option α)
  | none => some none
  | some .null => some none
  | some s => some <$> read s

/-- Reads a value of at most `depth` levels by a decoder. -/
def decodeSource? {α : Type} (depth : Nat) (read : Decoder α) (s : Source) : Option α := do
  let j ← s.toJson? depth
  (read j).toOption

/-- Reads the error of a response of at most `depth` levels. -/
def readError? (depth : Nat) (s : Source) : Option ResponseError := do
  match ← fieldSources? ["code", "message", "data"] s with
  | [some code, some message, data] => do
    let code ← decodeSource? (depth - 1) Decoder.int64 code
    let message ← decodeSource? (depth - 1) Decoder.string message
    let data ← nullable? (decodeSource? (depth - 1) Decoder.any) data
    some ⟨code, message, data⟩
  | _ => none

/-- What a message may have: an id, a method, parameters, a result and an error. -/
structure Envelope where
  id : Option RequestId
  method : Option String
  params : Json
  result : Option Json
  error : Option ResponseError
  deriving Repr

/-- Reads an envelope; members of other names are passed over. -/
def readEnvelope? (s : Source) : Option Envelope := do
  let depth := Json.maxDepth - 1
  match ← fieldSources? ["id", "method", "params", "result", "error"] s with
  | [id, method, params, result, error] => do
    let id ← nullable? (decodeSource? depth RequestId.decode) id
    let method ← nullable? (decodeSource? depth Decoder.string) method
    let params ← nullable? (decodeSource? depth Decoder.any) params
    let result ←
      match result with
      | none => some none
      | some s => some <$> s.toJson? depth
    let error ← nullable? (readError? depth) error
    some ⟨id, method, params.getD .null, result, error⟩
  | _ => none

def ofEnvelope (e : Envelope) : Except IncomingError Incoming :=
  match e.id, e.method with
  | some id, some method => .ok (.request id (ServerRequest.decode method e.params))
  | none, some method =>
    match ServerNotification.decode method e.params with
    | .ok note => .ok (.notification note)
    | .error _ => .error .notReadable
  | some id, none =>
    match e.error, e.result with
    | some error, _ => .ok (.response id (.error error))
    | none, some result => .ok (.response id (.ok result))
    | none, none => .error (.noOutcome id)
  | none, none => .error .noIdAndNoMethod

def decode (body : List UInt8) : Except IncomingError Incoming :=
  match (Source.read? body).bind readEnvelope? with
  | some e => ofEnvelope e
  | none => .error .notReadable

end Incoming

end LanguageClient
