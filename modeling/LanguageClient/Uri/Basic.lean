import LanguageClient.Uri.Path

/-!
# File uris

`ofPath?` writes an absolute path as a `file` uri, `toPath?` reads the path
from any uri that has one on this machine. Reading drops blanks and controls
at the ends, tabs and line ends anywhere, the query and the fragment.
-/
namespace LanguageClient.Uri

/-! ## From paths -/

/-- The components of a path: what stands between slashes, without the empty ones and `.`. -/
def components (path : String) : List (List Char) :=
  (path.toList.splitOn '/').filter fun s => s ≠ [] ∧ s ≠ ['.']

def isEscaped (b : UInt8) : Bool :=
  b ≤ 0x20 || 0x7F ≤ b || (Utf8.ofString "\"#<>?`\x7b\x7d%\\").contains b

def upperHex (n : Nat) : Char :=
  if n < 10 then Char.ofNat (48 + n) else Char.ofNat (55 + n)

def escapeByte (b : UInt8) : List Char :=
  if isEscaped b then ['%', upperHex (b.toNat / 16), upperHex (b.toNat % 16)]
  else [Char.ofNat b.toNat]

def ofPath? (path : String) : Option String :=
  if path.startsWith "/" then
    let parts := (components path).map fun s => '/' :: (Utf8.encode s).flatMap escapeByte
    some ("file://" ++ if parts.isEmpty then "/" else String.ofList parts.flatten)
  else none

def pathFailure (path : String) : String :=
  "cannot convert path to file URI: " ++ path

/-! ## To paths -/

/-- The characters of a uri that are read. -/
def relevant (uri : String) : List Char :=
  let s := uri.toList.dropWhile fun c => c.toNat ≤ 0x20
  let s := (s.reverse.dropWhile fun c => c.toNat ≤ 0x20).reverse
  s.filter fun c => c ≠ '\t' ∧ c ≠ '\n' ∧ c ≠ '\r'

def isSchemeChar (c : Char) : Bool :=
  c.isAlphanum || c = '+' || c = '-' || c = '.'

/-- The scheme in lower case and what follows its colon. -/
def splitScheme? (s : List Char) : Option (String × List Char) :=
  match s.takeWhile isSchemeChar, s.dropWhile isSchemeChar with
  | c :: scheme, ':' :: rest =>
    if c.isAlpha then some (String.ofList ((c :: scheme).map Char.toLower), rest) else none
  | _, _ => none

/-- A decimal port of at most 16 bits, perhaps empty, that ends where the authority does. Gives
what follows it. -/
def skipPort? (s : List Char) : Option (List Char) :=
  let digits := s.takeWhile Char.isDigit
  let rest := s.dropWhile Char.isDigit
  let port := digits.foldl (fun n c => n * 10 + (c.toNat - 48)) 0
  if 65535 < port then none
  else
    match rest with
    | [] => some []
    | c :: _ => if ['/', '\\', '?', '#'].contains c then some rest else none

/-- The characters of a host and what follows them. A colon in brackets belongs to the host. -/
def splitHost (k : SchemeKind) (inBrackets : Bool) : List Char → List Char × List Char
  | [] => ([], [])
  | c :: s =>
    if isSeparator k c || endsPath c || (c = ':' && !inBrackets) then ([], c :: s)
    else
      let inBrackets := c = '[' || (inBrackets && c ≠ ']')
      let (host, rest) := splitHost k inBrackets s
      (c :: host, rest)

/-- What follows the user information of an authority, and whether there was some. It ends at the
last at sign; an empty one may not stand before a path. -/
def skipUser? (k : SchemeKind) (s : List Char) : Option (List Char × Bool) :=
  let authority := s.takeWhile fun c => !isSeparator k c && !endsPath c
  if authority.contains '@' then
    let host := (authority.reverse.takeWhile (· ≠ '@')).reverse
    let user := authority.take (authority.length - host.length - 1)
    let rest := host ++ s.drop authority.length
    if user.isEmpty then if host.isEmpty ∧ !rest.isEmpty then none else some (rest, false)
    else some (rest, user ≠ [':'])
  else some (s, false)

/-- The path behind an authority that names this machine or nobody. -/
def pathBehindAuthority? (k : SchemeKind) (s : List Char) : Option (List Char) := do
  let (s, hasUser) ← skipUser? k s
  let (host, rest) := splitHost k false s
  let here := if k = .other then host == "localhost".toList else isLocalhost host
  let rest ←
    match rest with
    | ':' :: rest => if host.isEmpty then none else skipPort? rest
    | rest => some rest
  if host.isEmpty then if k ≠ .other ∨ hasUser then none else some () else
    if here then some () else none
  match rest with
  | [] => if k = .other then none else some ['/']
  | c :: behind =>
    if k = .other then
      if endsPath c then none
      else some (readPath k (if c = '/' then [] else ['/']) rest).path
    else some (readPath k ['/'] (if isSeparator k c then behind else rest)).path

/-- The path of a `file` uri whose host and path follow two slashes. -/
def pathBehindFileHost? (s : List Char) : Option (List Char) :=
  let host := s.takeWhile fun c => !isSeparator .file c && !endsPath c
  let rest := s.drop host.length
  if isDrive host then some (readPath .file ['/'] s).path
  else if host.isEmpty ∨ isLocalhost host then some (readPath .file [] rest).path
  else
    let behind := if (rest.head?.any (isSeparator .file)) then rest.drop 1 else rest
    let b := readPath .file ['/'] behind
    if b.hasDrive ∧ isHostName host then some b.path else none

/-- The path of a uri on this machine, still with its escapes. -/
def escapedPath? (uri : String) : Option (List Char) := do
  let (scheme, s) ← splitScheme? (relevant uri)
  let k := SchemeKind.ofName scheme
  match k with
  | .file =>
    match s with
    | a :: b :: rest =>
      if isSeparator k a then
        if isSeparator k b then pathBehindFileHost? rest else some (readPath k [] s).path
      else some (readPath k ['/'] s).path
    | [a] => if isSeparator k a then some (readPath k [] s).path else some (readPath k ['/'] s).path
    | [] => some ['/']
  | .special => pathBehindAuthority? k (s.dropWhile (isSeparator k))
  | .other =>
    match s with
    | '/' :: '/' :: rest => pathBehindAuthority? k rest
    | '/' :: rest => some (readPath k ['/'] rest).path
    | _ => none

/-- The bytes of a path that ends in a drive letter get a slash behind them. -/
def closeDrive (path : List UInt8) : List UInt8 :=
  match path.reverse with
  | b :: a :: _ :: _ =>
    if (Char.ofNat a.toNat).isAlpha && (b = 0x3A || b = 0x7C) then path ++ [0x2F] else path
  | _ => path

/-- The bytes of the path that a uri names on this machine. -/
def toPath? (uri : String) : Option (List UInt8) := do
  let path ← escapedPath? uri
  if path.head? = some '/' then some (closeDrive (percentDecode (Utf8.encode path))) else none

end LanguageClient.Uri
