import LanguageClient.Json.Basic

/-!
# Text in TOML documents

Blanks, comments, strings and keys. A reader gives what it read and the text
behind it, or nothing when the text is not well formed.
-/
namespace LanguageClient.Toml

def isBlank (c : Char) : Bool :=
  c = ' ' || c = '\t'

def skipBlanks (s : List Char) : List Char :=
  s.dropWhile isBlank

/-- Whether a character may stand in a comment or, quotes and backslashes apart, in a string. -/
def isPlain (c : Char) : Bool :=
  c = '\t' || (' ' ≤ c && c ≠ '\x7f')

/-- The text behind the end of a line at its start, or nothing at any other place. The end of the
text counts as one. -/
def lineEnd? : List Char → Option (List Char)
  | [] => some []
  | '\n' :: s => some s
  | '\r' :: '\n' :: s => some s
  | _ => none

/-- The text behind the blanks and the comment that may end a line, and behind its end. -/
def finishLine? (s : List Char) : Option (List Char) :=
  match skipBlanks s with
  | '#' :: s => lineEnd? (s.dropWhile isPlain)
  | s => lineEnd? s

/-- The text behind blanks, comments and ends of lines. The fuel bounds the lines. -/
def skipLines? : Nat → List Char → Option (List Char)
  | 0, s => some s
  | fuel + 1, s =>
    match skipBlanks s with
    | [] => some []
    | c :: rest =>
      if c = '#' || c = '\n' || c = '\r' then
        match finishLine? (c :: rest) with
        | some rest => skipLines? fuel rest
        | none => none
      else some (c :: rest)

/-- The text behind blanks, comments and ends of lines. -/
def skipSpace? (s : List Char) : Option (List Char) :=
  skipLines? (s.length + 1) s

/-! ## Digits -/

def digit? (base : Nat) (c : Char) : Option Nat :=
  let value :=
    if c.isDigit then c.toNat - 48
    else if 'a' ≤ c && c ≤ 'f' then c.toNat - 97 + 10
    else if 'A' ≤ c && c ≤ 'F' then c.toNat - 65 + 10
    else base
  if value < base then some value else none

/-- The number that some digits stand for. -/
def ofDigits (base : Nat) (digits : List Nat) : Nat :=
  digits.foldl (fun n d => n * base + d) 0

/-! ## Strings -/

/-- The character with a code of `count` hexadecimal digits. -/
def codedChar? (count : Nat) (s : List Char) : Option (Char × List Char) := do
  let digits ← (s.take count).mapM (digit? 16)
  let code := ofDigits 16 digits
  if h : digits.length = count ∧ code.isValidChar then
    some (⟨UInt32.ofNat code, by
      have hlt : code < 4294967296 := by
        have := h.2
        simp only [Nat.isValidChar] at this
        omega
      simpa [UInt32.isValidChar, UInt32.toNat_ofNat_of_lt' hlt] using h.2⟩, s.drop count)
  else none

def escapedChar? : List Char → Option (Char × List Char)
  | 'b' :: s => some ('\x08', s)
  | 't' :: s => some ('\t', s)
  | 'n' :: s => some ('\n', s)
  | 'f' :: s => some ('\x0c', s)
  | 'r' :: s => some ('\r', s)
  | 'e' :: s => some ('\x1b', s)
  | '"' :: s => some ('"', s)
  | '\\' :: s => some ('\\', s)
  | 'x' :: s => codedChar? 2 s
  | 'u' :: s => codedChar? 4 s
  | 'U' :: s => codedChar? 8 s
  | _ => none

/-- Reads the rest of a string in double quotes on one line; `before` is what was read of it, last
first. The fuel bounds the characters. -/
def readBasic? (before : List Char) : Nat → List Char → Option (List Char × List Char)
  | 0, _ => none
  | fuel + 1, s =>
    match s with
    | [] => none
    | '"' :: rest => some (before.reverse, rest)
    | '\\' :: rest => do
      let (c, rest) ← escapedChar? rest
      readBasic? (c :: before) fuel rest
    | c :: rest => if isPlain c then readBasic? (c :: before) fuel rest else none

/-- Reads the rest of a string in single quotes on one line. -/
def readLiteral? (s : List Char) : Option (List Char × List Char) :=
  match s.dropWhile fun c => isPlain c && c ≠ '\'' with
  | '\'' :: rest => some (s.takeWhile fun c => isPlain c && c ≠ '\'', rest)
  | _ => none

/-- The text behind a line that was ended by a backslash: all blanks and ends of lines that
follow are left out. Nothing if the backslash does not end its line. -/
def continuation? (s : List Char) : Option (List Char) :=
  match skipBlanks s with
  | '\n' :: rest => some (rest.dropWhile fun c => isBlank c || c = '\n' || c = '\r')
  | '\r' :: '\n' :: rest => some (rest.dropWhile fun c => isBlank c || c = '\n' || c = '\r')
  | _ => none

/-- Reads the rest of a string over several lines, which three quotes end; up to two more before
them belong to it. The fuel bounds the characters. -/
def readLong? (quote : Char) (before : List Char) : Nat → List Char → Option (List Char × List Char)
  | 0, _ => none
  | fuel + 1, s =>
    match s with
    | [] => none
    | c :: rest =>
      if c = quote then
        let count := (s.takeWhile (· = quote)).length
        if count < 3 then readLong? quote (c :: before) fuel rest
        else
          let kept := min (count - 3) 2
          some ((List.replicate kept quote ++ before).reverse, s.drop (kept + 3))
      else if c = '\\' && quote = '"' then
        match continuation? rest with
        | some rest => readLong? quote before fuel rest
        | none => do
          let (e, rest) ← escapedChar? rest
          readLong? quote (e :: before) fuel rest
      else if c = '\r' then
        match rest with
        | '\n' :: rest => readLong? quote ('\n' :: '\r' :: before) fuel rest
        | _ => none
      else if c = '\n' || isPlain c then readLong? quote (c :: before) fuel rest
      else none

/-- The text behind an end of line at its start, which does not belong to a long string. -/
def skipFirstLine : List Char → List Char
  | '\n' :: s => s
  | '\r' :: '\n' :: s => s
  | s => s

/-- Reads a string on one line, if there is one. -/
def readShort? : List Char → Option (List Char × List Char)
  | '"' :: s => readBasic? [] (s.length + 1) s
  | '\'' :: s => readLiteral? s
  | _ => none

def readString? : List Char → Option (List Char × List Char)
  | '"' :: '"' :: '"' :: s => readLong? '"' [] (s.length + 1) (skipFirstLine s)
  | '\'' :: '\'' :: '\'' :: s => readLong? '\'' [] (s.length + 1) (skipFirstLine s)
  | s => readShort? s

/-! ## Keys -/

def isKeyChar (c : Char) : Bool :=
  c.isAlphanum || c = '_' || c = '-'

def readKeyPart? (s : List Char) : Option (String × List Char) :=
  match s with
  | '"' :: _ => (readShort? s).map fun (key, rest) => (String.ofList key, rest)
  | '\'' :: _ => (readShort? s).map fun (key, rest) => (String.ofList key, rest)
  | _ =>
    let key := s.takeWhile isKeyChar
    if key.isEmpty then none else some (String.ofList key, s.dropWhile isKeyChar)

/-- Reads the parts of a key, which points separate, and the blanks around them. The fuel bounds
the parts. -/
def readParts? : Nat → List Char → Option (List String × List Char)
  | 0, _ => none
  | fuel + 1, s => do
    let (part, rest) ← readKeyPart? (skipBlanks s)
    match skipBlanks rest with
    | '.' :: rest =>
      let (parts, rest) ← readParts? fuel rest
      some (part :: parts, rest)
    | rest => some ([part], rest)

def readKey? (s : List Char) : Option (List String × List Char) :=
  readParts? (s.length + 1) s

end LanguageClient.Toml
