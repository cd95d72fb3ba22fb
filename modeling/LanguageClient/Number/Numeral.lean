/-!
# Decimal numerals

A numeral is a run of decimal digits, perhaps behind a plus sign, whose
value stays below a bound. Reading goes digit by digit, so the first thing
that is wrong is the one reported.
-/
namespace LanguageClient

inductive NumeralError where
  | empty
  | invalidDigit
  | tooLarge
  deriving DecidableEq, Repr

namespace NumeralError

def message : NumeralError → String
  | empty => "cannot parse integer from empty string"
  | invalidDigit => "invalid digit found in string"
  | tooLarge => "number too large to fit in target type"

end NumeralError

namespace Numeral

/-- Reads digits behind a number that is read already. -/
def readDigits (bound : Nat) : Nat → List Char → Except NumeralError Nat
  | n, [] => .ok n
  | n, c :: s =>
    if c.isDigit then
      let n := n * 10 + (c.toNat - 48)
      if n < bound then readDigits bound n s else .error .tooLarge
    else .error .invalidDigit

/-- The value of a numeral below `bound`. -/
def read (bound : Nat) : List Char → Except NumeralError Nat
  | [] => .error .empty
  | ['+'] => .error .invalidDigit
  | '+' :: s => readDigits bound 0 s
  | s => readDigits bound 0 s

end Numeral

end LanguageClient
