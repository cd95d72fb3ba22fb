import LanguageClient.Json.Decode

/-!
# Kinds of messages to the user
-/
namespace LanguageClient

inductive MessageKind where
  | error
  | warning
  | info
  | log
  deriving DecidableEq, Repr, Inhabited

namespace MessageKind

/-- The kind with a code; an unknown one is only logged. -/
def ofCode : Nat → MessageKind
  | 1 => error
  | 2 => warning
  | 3 => info
  | _ => log

def label : MessageKind → String
  | error => "Error"
  | warning => "Warning"
  | info => "Info"
  | log => "Log"

def decode : Decoder MessageKind := fun j =>
  ofCode <$> Decoder.nat64 j

end MessageKind

end LanguageClient
