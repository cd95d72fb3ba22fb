import LanguageClient.Frame.Basic
import LanguageClient.Json.Printer
import LanguageClient.RequestId

/-!
# Messages to a server

Requests, notifications and replies to a server's own requests. `frame` is
the bytes that go to the server.
-/
namespace LanguageClient

structure ResponseError where
  code : Int
  message : String
  data : Option Json
  deriving DecidableEq, Repr, BEq, Inhabited

namespace ResponseError

/-- The code for parameters that could not be read. -/
def invalidParams : Int := -32602

/-- The code for a method that nobody answers. -/
def methodNotFound : Int := -32601

/-- An error without data. -/
def plain (code : Int) (message : String) : ResponseError := ⟨code, message, none⟩

def display (e : ResponseError) : String :=
  e.message ++ " (code " ++ toString e.code ++ ")"

def fields : Fields (Int × String × Option Json × Unit) :=
  .required "code" Decoder.int64 (.required "message" Decoder.string
    (.optional "data" Decoder.any .done))

def decode : Decoder ResponseError := fun j =>
  (fun (code, message, data, ()) => ⟨code, message, data⟩) <$> fields.read "ResponseError" j

def toJson (e : ResponseError) : Json :=
  .obj ([("code", .int e.code), ("message", .str e.message)] ++ Json.optional "data" e.data)

end ResponseError

/-- A message to a server. -/
inductive Outgoing where
  | request (id : Int) (method : String) (params : Option Json)
  | notification (method : String) (params : Option Json)
  | reply (id : RequestId) (outcome : Except ResponseError Json)
  deriving DecidableEq, Repr, Inhabited

namespace Outgoing

/-- The member of a reply that holds its outcome. -/
def outcomeMember : Except ResponseError Json → String × Json
  | .ok result => ("result", result)
  | .error e => ("error", e.toJson)

def toJson : Outgoing → Json
  | request id method params =>
    .obj ([("jsonrpc", .str "2.0"), ("id", .int id), ("method", .str method)] ++
      Json.optional "params" params)
  | notification method params =>
    .obj ([("jsonrpc", .str "2.0"), ("method", .str method)] ++ Json.optional "params" params)
  | reply id outcome =>
    .obj [("jsonrpc", .str "2.0"), ("id", id.toJson), outcomeMember outcome]

def body (m : Outgoing) : List UInt8 :=
  m.toJson.toBytes

def frame (m : Outgoing) : List UInt8 :=
  Frame.encode m.body

end Outgoing

end LanguageClient
