import LanguageClient.Position

/-!
# Diagnostics

What a server has to say about a range of a document: how severe it is, a
code, and a message.
-/
namespace LanguageClient

inductive Severity where
  | error
  | warning
  | information
  | hint
  deriving DecidableEq, Repr, Inhabited

namespace Severity

def ofCode? : Nat → Option Severity
  | 1 => some error
  | 2 => some warning
  | 3 => some information
  | 4 => some hint
  | _ => none

/-- The code of a severity; the most severe has the least. -/
def code : Severity → Nat
  | error => 1
  | warning => 2
  | information => 3
  | hint => 4

def label : Severity → String
  | error => "error"
  | warning => "warning"
  | information => "info"
  | hint => "hint"

def letter : Severity → String
  | error => "E"
  | warning => "W"
  | information => "I"
  | hint => "H"

def decode : Decoder Severity := fun j => do
  let code ← Decoder.nat64 j
  match ofCode? code with
  | some severity => .ok severity
  | none => .error (.unknownSeverity code)

def toJson (s : Severity) : Json :=
  .int s.code

end Severity

/-- The code of a diagnostic, a number or a string. -/
inductive DiagnosticCode where
  | number (n : Int)
  | text (s : String)
  deriving DecidableEq, Repr, Inhabited

namespace DiagnosticCode

def display : DiagnosticCode → String
  | number n => toString n
  | text s => s

/-- Reads a code: a 64-bit integer or a string. -/
def decode : Decoder DiagnosticCode :=
  Decoder.orElse "DiagnosticCode" (fun j => number <$> Decoder.int64 j)
    (fun j => text <$> Decoder.string j)

def toJson : DiagnosticCode → Json
  | number n => .int n
  | text s => .str s

end DiagnosticCode

structure Diagnostic where
  range : Range
  severity : Option Severity
  code : Option DiagnosticCode
  source : Option String
  message : String
  deriving DecidableEq, Repr, Inhabited

namespace Diagnostic

def line (d : Diagnostic) : UInt32 :=
  d.range.start.line

/-- The message behind the severity and the code in brackets. The brackets are left out when
there is neither, the colon in them unless there are both. -/
def gutterText (d : Diagnostic) : String :=
  match d.severity, d.code with
  | none, none => d.message
  | some s, none => "[" ++ s.letter ++ "]: " ++ d.message
  | none, some c => "[" ++ c.display ++ "]: " ++ d.message
  | some s, some c => "[" ++ s.letter ++ ":" ++ c.display ++ "]: " ++ d.message

def fields :
    Fields (Range × Option Severity × Option DiagnosticCode × Option String × String × Unit) :=
  .required "range" Range.decode (.optional "severity" Severity.decode
    (.optional "code" DiagnosticCode.decode (.optional "source" Decoder.string
      (.required "message" Decoder.string .done))))

def decode : Decoder Diagnostic := fun j =>
  (fun (range, severity, code, source, message, ()) => ⟨range, severity, code, source, message⟩)
    <$> fields.read "Diagnostic" j

def toJson (d : Diagnostic) : Json :=
  .obj (Json.optional "code" (d.code.map DiagnosticCode.toJson) ++
    [("message", .str d.message), ("range", d.range.toJson)] ++
    Json.optional "severity" (d.severity.map Severity.toJson) ++
    Json.optional "source" (d.source.map .str))

end Diagnostic

end LanguageClient
