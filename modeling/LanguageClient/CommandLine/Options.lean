import LanguageClient.CommandLine.Caret

/-!
# Options of the command line

`CommandOptions.read` reads the words behind the name of the program. The
last file given counts, and the last value of each flag.
-/
namespace LanguageClient

structure CommandOptions where
  file : String
  language : Option String
  hover : Option Position
  complete : Option Position
  /-- How many milliseconds to wait for answers. -/
  wait : Option Nat
  deriving DecidableEq, Repr, Inhabited

inductive CommandError where
  | noValue (flag : String)
  | unknownFlag (flag : String)
  | caret (e : CaretError)
  | wait (e : NumeralError)
  | noFile
  deriving DecidableEq, Repr

namespace CommandError

def message : CommandError → String
  | noValue flag => flag ++ " needs a value"
  | unknownFlag flag => "unknown flag " ++ flag
  | caret e => e.message
  | wait e => "--wait takes milliseconds: " ++ e.message
  | noFile =>
    "usage: tether <file> [--language <id>] [--hover <line:col>] [--complete <line:col>]" ++
      " [--wait <ms>]"

end CommandError

namespace CommandOptions

def readCaret (s : String) : Except CommandError Position :=
  match Caret.read s with
  | .ok p => .ok p
  | .error e => .error (.caret e)

/-- Reads a number of milliseconds as the value of a flag. -/
def readWait (s : String) : Except CommandError Nat :=
  match Numeral.read 0x10000000000000000 s.toList with
  | .ok n => .ok n
  | .error e => .error (.wait e)

/-- Reads the words behind those that gave the options so far; the file is separate because it
may still be missing. -/
def readFrom (file : Option String) (o : CommandOptions) :
    List String → Except CommandError (Option String × CommandOptions)
  | [] => .ok (file, o)
  | ["--language"] => .error (.noValue "--language")
  | "--language" :: value :: rest => readFrom file { o with language := some value } rest
  | ["--hover"] => .error (.noValue "--hover")
  | "--hover" :: value :: rest => do
    readFrom file { o with hover := some (← readCaret value) } rest
  | ["--complete"] => .error (.noValue "--complete")
  | "--complete" :: value :: rest => do
    readFrom file { o with complete := some (← readCaret value) } rest
  | ["--wait"] => .error (.noValue "--wait")
  | "--wait" :: value :: rest => do
    readFrom file { o with wait := some (← readWait value) } rest
  | word :: rest =>
    if word.startsWith "--" then .error (.unknownFlag word) else readFrom (some word) o rest

def read (words : List String) : Except CommandError CommandOptions := do
  match ← readFrom none ⟨"", none, none, none, none⟩ words with
  | (some file, o) => .ok { o with file := file }
  | (none, _) => .error .noFile

end CommandOptions

end LanguageClient
