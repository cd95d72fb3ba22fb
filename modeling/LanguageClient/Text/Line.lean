import LanguageClient.Text.Utf16

/-!
# Lines

A line ends at a line feed, at a carriage return, or at the two together,
which are one terminator. `break?` finds the first terminator, `split` cuts
a text into lines that keep their terminators, `content` is a line without
it.
-/
namespace LanguageClient.Line

/-- The characters that end a line. -/
def isBreak (c : Char) : Bool :=
  c = '\n' || c = '\r'

/-- The first terminator: the text before it, the terminator, the text after it. -/
def break? : List Char → Option (List Char × List Char × List Char)
  | [] => none
  | '\r' :: '\n' :: s => some ([], ['\r', '\n'], s)
  | c :: s =>
    if isBreak c then some ([], [c], s)
    else do
      let (before, terminator, after) ← break? s
      some (c :: before, terminator, after)

/-- A line without its terminator; of a longer text, its first line. -/
def content (s : List Char) : List Char :=
  s.takeWhile (fun c => !isBreak c)

/-- The lines of a text, each with its terminator. An empty text has none, and a
text that ends in a terminator has no empty line after it. -/
def split : List Char → List (List Char)
  | [] => []
  | '\r' :: '\n' :: s => ['\r', '\n'] :: split s
  | c :: s =>
    if isBreak c then [c] :: split s
    else
      match split s with
      | [] => [[c]]
      | line :: lines => (c :: line) :: lines

/-- The text cut at the start of line `n`, behind its first `n` terminators. -/
def splitAt? : Nat → List Char → Option (List Char × List Char)
  | 0, s => some ([], s)
  | n + 1, s => do
    let (line, terminator, after) ← break? s
    let (lines, rest) ← splitAt? n after
    some (line ++ terminator ++ lines, rest)

def isTerminated (line : List Char) : Bool :=
  (content line).length < line.length

end LanguageClient.Line
