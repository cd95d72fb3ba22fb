import LanguageClient.Text.Quoted
import LanguageClient.Text.Utf8

/-!
# Frames

A message travels as a block of header lines, a blank line and a body, whose
length one of the headers gives. `encode` writes a frame with that one
header; `FrameError` says what can be wrong with one that is read.
-/
namespace LanguageClient

/-- The longest header line, its terminator included. -/
def maxHeaderLine : Nat := 65536

/-- The most header lines of a frame, the blank one included. -/
def maxHeaderLines : Nat := 100

def maxBody : Nat := 32 * 1024 * 1024

/-- The most that is read as a body whose length is not given. -/
def fallbackBody : Nat := 65536

/-- What is done with a frame that does not give its length. -/
inductive MissingLength where
  | reject
  | readAvailable
  deriving DecidableEq, Repr, Inhabited

/-- What was read when a stream ended too early. -/
inductive FramePart where
  | headers
  | body
  | oversizedBody
  deriving DecidableEq, Repr

namespace FramePart

/-- What was done when the stream ended. -/
def activity : FramePart → String
  | headers => "reading headers"
  | body => "reading frame body"
  | oversizedBody => "skipping oversized body"

end FramePart

inductive FrameError where
  | lineTooLong
  | tooManyHeaders
  | invalidLength (value : String)
  | missingLength
  | oversized (length : Nat)
  | truncated (part : FramePart)
  | broken (text : String)
  deriving DecidableEq, Repr

namespace FrameError

/-- Whether nothing can be read behind the error. -/
def isFatal : FrameError → Bool
  | truncated _ => true
  | broken _ => true
  | _ => false

def message : FrameError → String
  | lineTooLong => "header line exceeds " ++ toString maxHeaderLine ++ " bytes"
  | tooManyHeaders => "got more than " ++ toString maxHeaderLines ++ " header lines"
  | invalidLength value => "invalid Content-Length value: " ++ Quoted.quote value
  | missingLength => "missing Content-Length header"
  | oversized length =>
    "Content-Length " ++ toString length ++ " exceeds maximum " ++ toString maxBody
  | truncated part => "unexpected EOF while " ++ part.activity
  | broken text => "reading frame: " ++ text

end FrameError

instance decidableEqExcept {ε α : Type} [DecidableEq ε] [DecidableEq α] :
    DecidableEq (Except ε α)
  | .ok a, .ok b => decidable_of_iff (a = b) ⟨congrArg _, Except.ok.inj⟩
  | .error a, .error b => decidable_of_iff (a = b) ⟨congrArg _, Except.error.inj⟩
  | .ok _, .error _ => isFalse nofun
  | .error _, .ok _ => isFalse nofun

/-- A frame that was read: the header fields, their bytes up to the blank line, and the body. -/
structure Frame where
  fields : List (String × String)
  headerBytes : List UInt8
  body : List UInt8
  deriving DecidableEq, Repr, Inhabited

namespace Frame

/-- Whether two names are the same but for the case of ASCII letters. -/
def sameName (a b : String) : Bool :=
  a.toList.map Char.toLower == b.toList.map Char.toLower

/-- The value of the first of some fields with a name. -/
def field? (fields : List (String × String)) (name : String) : Option String :=
  (fields.find? fun (key, _) => sameName key name).map Prod.snd

/-- The value of the first header with a name. -/
def header? (f : Frame) (name : String) : Option String :=
  field? f.fields name

def headerFor (body : List UInt8) : List UInt8 :=
  Utf8.ofString ("Content-Length: " ++ toString body.length ++ "\r\n\r\n")

def encode (body : List UInt8) : List UInt8 :=
  headerFor body ++ body

end Frame

end LanguageClient
