import LanguageClient.Json.Decode

/-!
# Request ids

The id of a request is a number or a string. Requests sent from here have
numbers; a server may use either, and its reply has the id unchanged.
-/
namespace LanguageClient

inductive RequestId where
  | number (n : Int)
  | text (s : String)
  deriving DecidableEq, Repr, Inhabited

namespace RequestId

/-- The number of a numeric id. -/
def number? : RequestId → Option Int
  | number n => some n
  | text _ => none

/-- An id as it is shown: a number in decimal, a string in quotes. -/
def display : RequestId → String
  | number n => toString n
  | text s => Quoted.quote s

/-- Reads an id: a 64-bit integer or a string. -/
def decode : Decoder RequestId :=
  Decoder.orElse "RequestId" (fun j => number <$> Decoder.int64 j)
    (fun j => text <$> Decoder.string j)

def toJson : RequestId → Json
  | number n => .int n
  | text s => .str s

end RequestId

end LanguageClient
