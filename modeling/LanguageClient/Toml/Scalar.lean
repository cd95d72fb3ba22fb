import LanguageClient.Toml.Text

/-!
# Numbers, truth values and times in TOML documents

A scalar is read as the JSON value it stands for. A time is an object with
its text as only member; infinities and what is not a number are `null`.
-/
namespace LanguageClient.Toml

/-- The digits of a run in which single underscores may stand between digits. -/
def digitRun? (base : Nat) (s : List Char) : Option (List Nat) :=
  if (s.splitOn '_').any List.isEmpty then none
  else (s.filter (· ≠ '_')).mapM (digit? base)

/-! ## Numbers -/

/-- An integer, if it fits in 64 bits, signed or unsigned. -/
def integer? (n : Int) : Option Json :=
  if -0x8000000000000000 ≤ n ∧ n ≤ 0xFFFFFFFFFFFFFFFF then some (.int n) else none

/-- A sign and the text behind it. -/
def readSign : List Char → Bool × List Char
  | '-' :: s => (true, s)
  | '+' :: s => (false, s)
  | s => (false, s)

/-- The exponent that ends a number. -/
def exponent? : List Char → Option Int
  | [] => some 0
  | e :: s =>
    if e = 'e' || e = 'E' then do
      let (negative, s) := readSign s
      let n := ofDigits 10 (← digitRun? 10 s)
      some (if negative then -n else n)
    else none

/-- Whether a character belongs to a run of decimal digits. -/
def inRun (c : Char) : Bool :=
  c.isDigit || c = '_'

def decimal? (negative : Bool) (s : List Char) : Option Json := do
  let whole ← digitRun? 10 (s.takeWhile inRun)
  if whole.head? = some 0 ∧ whole.length ≠ 1 then none
  else
    match s.dropWhile inRun with
    | [] =>
      let n : Int := ofDigits 10 whole
      integer? (if negative then -n else n)
    | '.' :: s => do
      let fraction ← digitRun? 10 (s.takeWhile inRun)
      let exponent ← exponent? (s.dropWhile inRun)
      (Binary64.ofDecimal? negative (ofDigits 10 (whole ++ fraction))
        (exponent - fraction.length)).map Json.float
    | s => do
      (Binary64.ofDecimal? negative (ofDigits 10 whole) (← exponent? s)).map Json.float

/-- The value of a number. -/
def number? : List Char → Option Json
  | '0' :: 'x' :: s => do integer? (ofDigits 16 (← digitRun? 16 s))
  | '0' :: 'o' :: s => do integer? (ofDigits 8 (← digitRun? 8 s))
  | '0' :: 'b' :: s => do integer? (ofDigits 2 (← digitRun? 2 s))
  | s =>
    let (negative, s) := readSign s
    if s = "inf".toList || s = "nan".toList then some .null else decimal? negative s

/-! ## Times -/

def readDigits? (count : Nat) (s : List Char) : Option (Nat × List Char) := do
  let digits ← (s.take count).mapM (digit? 10)
  if digits.length = count then some (ofDigits 10 digits, s.drop count) else none

def expect? (c : Char) : List Char → Option (List Char)
  | [] => none
  | d :: s => if c = d then some s else none

def daysIn (year month : Nat) : Nat :=
  if month = 2 then
    if year % 4 = 0 ∧ (year % 100 ≠ 0 ∨ year % 400 = 0) then 29 else 28
  else if [4, 6, 9, 11].contains month then 30
  else 31

def readDate? (s : List Char) : Option (List Char) := do
  let (year, s) ← readDigits? 4 s
  let (month, s) ← readDigits? 2 (← expect? '-' s)
  let (day, s) ← readDigits? 2 (← expect? '-' s)
  if 1 ≤ month ∧ month ≤ 12 ∧ 1 ≤ day ∧ day ≤ daysIn year month then some s else none

/-- A fraction of a second, to nine digits and without zeros at its end. -/
def trimFraction (digits : List Char) : List Char :=
  match ((digits.take 9).reverse.dropWhile (· = '0')).reverse with
  | [] => ['0']
  | digits => digits

def readSeconds? : List Char → Option (List Char × List Char)
  | ':' :: s => do
    let (second, rest) ← readDigits? 2 s
    let text := ':' :: s.take 2
    if 60 < second then none
    else
      match rest with
      | '.' :: rest =>
        let digits := rest.takeWhile Char.isDigit
        if digits.isEmpty then none
        else some (text ++ '.' :: trimFraction digits, rest.dropWhile Char.isDigit)
      | _ => some (text, rest)
  | s => some ([], s)

def readTime? (s : List Char) : Option (List Char × List Char) := do
  let (hour, rest) ← readDigits? 2 s
  let (minute, rest) ← readDigits? 2 (← expect? ':' rest)
  let (seconds, rest) ← readSeconds? rest
  if hour ≤ 23 ∧ minute ≤ 59 then some (s.take 5 ++ seconds, rest) else none

def offset? : List Char → Option (List Char)
  | [] => some []
  | ['Z'] => some ['Z']
  | ['z'] => some ['Z']
  | sign :: s => do
    let (hour, rest) ← readDigits? 2 s
    let (minute, rest) ← readDigits? 2 (← expect? ':' rest)
    if rest ≠ [] ∨ 23 < hour ∨ 59 < minute then none
    else if sign = '+' ∨ (sign = '-' ∧ hour = 0 ∧ minute = 0) then some ('+' :: s)
    else if sign = '-' then some ('-' :: s)
    else none

/-- The text of a date, a time of day, or both with an offset. -/
def timeText? (s : List Char) : Option (List Char) :=
  match readDate? s with
  | some [] => some s
  | some (separator :: rest) => do
    let (time, rest) ← readTime? rest
    if separator = 'T' ∨ separator = 't' ∨ separator = ' ' then
      some (s.take 10 ++ 'T' :: time ++ (← offset? rest))
    else none
  | none =>
    match readTime? s with
    | some (time, []) => some time
    | _ => none

/-- The name of the member that holds the text of a time. -/
def timeMember : String := "$__toml_private_datetime"

/-! ## Scalars -/

def isScalarChar (c : Char) : Bool :=
  c.isAlphanum || ['_', '+', '-', '.', ':'].contains c

def scalar? (s : List Char) : Option Json :=
  if s = "true".toList then some (.bool true)
  else if s = "false".toList then some (.bool false)
  else
    match timeText? s with
    | some text => some (.obj [(timeMember, .str (String.ofList text))])
    | none => number? s

/-- Reads a scalar. A date may go on behind one space with the time of day. -/
def readScalar? (s : List Char) : Option (Json × List Char) :=
  let first := s.takeWhile isScalarChar
  let rest := s.dropWhile isScalarChar
  match readDate? first, rest with
  | some [], ' ' :: c :: more =>
    if c.isDigit then
      let time := (c :: more).takeWhile isScalarChar
      (scalar? (first ++ ' ' :: time)).map fun v => (v, (c :: more).dropWhile isScalarChar)
    else (scalar? first).map fun v => (v, rest)
  | _, _ => (scalar? first).map fun v => (v, rest)

end LanguageClient.Toml
