import LanguageClient.Glob.Basic

/-!
# Reading glob patterns

A backslash takes the next character as it is; brackets hold a class, braces
alternatives parted by commas. `**` stands for directories only as a whole
component, between slashes, braces, commas and the ends of the pattern;
elsewhere it is two `*`. A class or brace left open, a brace that closes
nothing, a range that runs backwards and a backslash at the end make a
pattern invalid.
-/
namespace LanguageClient.Glob

/-- What has been read: the tokens of the branch at hand, last first, and for every open brace
its finished branches, last first, with the tokens before it, last first. -/
structure Reading where
  tokens : List Token
  groups : List (List (List Token) × List Token)
  deriving Repr

namespace Reading

/-- Nothing read. -/
def start : Reading := ⟨[], []⟩

def push (r : Reading) (t : Token) : Reading :=
  { r with tokens := t :: r.tokens }

/-- Whether a brace is open. -/
def inGroup (r : Reading) : Bool :=
  !r.groups.isEmpty

def openGroup (r : Reading) : Reading :=
  ⟨[], ([], r.tokens) :: r.groups⟩

/-- Starts the next branch of the innermost brace; outside of braces a comma is a literal. -/
def comma (r : Reading) : Reading :=
  match r.groups with
  | [] => r.push (.literal (Utf8.ofString ","))
  | (branches, outer) :: groups => ⟨[], (r.tokens.reverse :: branches, outer) :: groups⟩

/-- Closes the innermost brace. -/
def closeGroup? (r : Reading) : Option Reading :=
  match r.groups with
  | [] => none
  | (branches, outer) :: groups =>
    some ⟨.alternatives (r.tokens.reverse :: branches).reverse :: outer, groups⟩

/-- Puts the token for directories in the place of the slash, or of another such token, before
it. -/
def directories (r : Reading) (atEnd : Bool) : Reading :=
  match r.tokens with
  | .leading :: _ => r
  | .trailing :: _ => r
  | _ :: tokens => { r with tokens := (if atEnd then .trailing else .between) :: tokens }
  | [] => r

end Reading

/-- The bytes of a character, the last one first. -/
def reversedBytes (c : Char) : List UInt8 :=
  (Utf8.encodeChar c).reverse

/-- The byte ranges of a range of characters. A character of more than one byte counts by its
bytes; the range runs from the last byte of the first character to the first byte of the last. -/
def byteRanges (low high : Char) : List (UInt8 × UInt8) :=
  let single (b : UInt8) : UInt8 × UInt8 := (b, b)
  if low = high then (Utf8.encodeChar low).map single
  else
    match reversedBytes low, Utf8.encodeChar high with
    | last :: lead, first :: rest => lead.map single ++ (last, first) :: rest.map single
    | _, _ => []

/-- Reads the rest of a class: `ranges` holds what was read, last first; `first` says that
nothing was, `inRange` that the last thing read was a hyphen that may join two characters. -/
def readClass? (ranges : List (Char × Char)) (first inRange : Bool) :
    List Char → Option (List (Char × Char) × List Char)
  | [] => none
  | c :: s =>
    if c = ']' ∧ !first then some ((if inRange then ('-', '-') :: ranges else ranges).reverse, s)
    else if c = '-' ∧ !first ∧ !inRange then readClass? ranges false true s
    else if inRange then
      match ranges with
      | (low, _) :: ranges =>
        if c < low then none else readClass? ((low, c) :: ranges) false false s
      | [] => none
    else readClass? ((c, c) :: ranges) false false s

/-- Reads what follows two stars. `previous` is the character before them. Gives what was read
and how many more characters that took. -/
def readDirectories (r : Reading) (previous : Option Char) (next : Option Char) :
    Reading × Nat :=
  let plain := ((r.push .many).push .many, 0)
  if r.tokens.isEmpty then
    match next with
    | none => (r.push .leading, 0)
    | some c => if c = '/' then (r.push .leading, 1) else plain
  else if previous ≠ some '/' ∧ !(r.inGroup ∧ (previous = some ',' ∨ previous = some '\x7b')) then
    plain
  else
    match next with
    | none => (r.directories true, 0)
    | some c =>
      if r.inGroup ∧ (c = ',' ∨ c = '\x7d') then (r.directories true, 0)
      else if c = '/' then (r.directories false, 1)
      else plain

/-- Reads the rest of a pattern. The fuel bounds the tokens. -/
def readFrom? (r : Reading) (previous : Option Char) : Nat → List Char → Option (List Token)
  | 0, _ => none
  | _ + 1, [] => if r.inGroup then none else some r.tokens.reverse
  | fuel + 1, c :: s =>
    if c = '?' then readFrom? (r.push .one) (some c) fuel s
    else if c = '*' then
      match s with
      | '*' :: s =>
        let (r, taken) := readDirectories r previous s.head?
        readFrom? r (some (if taken = 0 then '*' else '/')) fuel (s.drop taken)
      | s => readFrom? (r.push .many) (some c) fuel s
    else if c = '[' then
      let (negated, s) :=
        match s with
        | '!' :: s => (true, s)
        | '^' :: s => (true, s)
        | s => (false, s)
      match readClass? [] true false s with
      | some (ranges, s) =>
        let ranges := ranges.flatMap fun (low, high) => byteRanges low high
        readFrom? (r.push (.oneOf negated ranges)) (some ']') fuel s
      | none => none
    else if c = '\x7b' then readFrom? r.openGroup (some c) fuel s
    else if c = '\x7d' then
      match r.closeGroup? with
      | some r => readFrom? r (some c) fuel s
      | none => none
    else if c = ',' then readFrom? r.comma (some c) fuel s
    else if c = '\\' then
      match s with
      | d :: s => readFrom? (r.push (.literal (Utf8.encodeChar d))) (some d) fuel s
      | [] => none
    else readFrom? (r.push (.literal (Utf8.encodeChar c))) (some c) fuel s

def parse? (pattern : String) : Option (List Token) :=
  readFrom? .start none (pattern.length + 1) pattern.toList

end LanguageClient.Glob
