import LanguageClient.Number.Numeral
import LanguageClient.Position
import LanguageClient.Text.Blank

/-!
# Carets on the command line

A caret is written as line and column, both counted from one. `linePrefix`
is the text that stands before it on its line.
-/
namespace LanguageClient

inductive CaretError where
  | noColon
  | line (e : NumeralError)
  | column (e : NumeralError)
  | zero
  deriving DecidableEq, Repr

namespace CaretError

def message : CaretError → String
  | noColon => "position must be line:col"
  | line e => "invalid line: " ++ e.message
  | column e => "invalid column: " ++ e.message
  | zero => "positions are 1-based"

end CaretError

namespace Caret

/-- Reads one of the two numbers. -/
def readNumber (s : List Char) : Except NumeralError UInt32 :=
  UInt32.ofNat <$> Numeral.read 0x100000000 (Blank.trim s)

def read (s : String) : Except CaretError Position :=
  match s.toList.dropWhile (· ≠ ':') with
  | [] => .error .noColon
  | _ :: column =>
    match readNumber (s.toList.takeWhile (· ≠ ':')) with
    | .error e => .error (.line e)
    | .ok line =>
      match readNumber column with
      | .error e => .error (.column e)
      | .ok column =>
        if line = 0 ∨ column = 0 then .error .zero else .ok ⟨line - 1, column - 1⟩

end Caret

/-- The text before a position on its line: all of the line if it does not reach the position or
the position is inside a character, and nothing if there is no such line. -/
def Position.linePrefix (p : Position) (text : List Char) : List Char :=
  let line := Line.content ((Line.split text)[p.line.toNat]?.getD [])
  match Utf16.split? line p.character.toNat with
  | some (before, _) => before
  | none => line

end LanguageClient
