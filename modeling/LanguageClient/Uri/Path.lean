import LanguageClient.Uri.Host

/-!
# The path of a uri

The path of a uri is built segment by segment: `.` adds nothing, `..` takes
the last segment away, but never the root or a drive letter such as `C:`.
In a `file` uri a first segment that is a drive letter takes the place of the
host.
-/
namespace LanguageClient.Uri

/-- The kinds of schemes that are read differently. -/
inductive SchemeKind where
  | file
  | special
  | other
  deriving DecidableEq, Repr

namespace SchemeKind

def ofName (name : String) : SchemeKind :=
  if name = "file" then file
  else if ["http", "https", "ws", "wss", "ftp"].contains name then special
  else other

/-- Whether a backslash parts segments like a slash. -/
def takesBackslash (k : SchemeKind) : Bool :=
  k ≠ other

end SchemeKind

def endsPath (c : Char) : Bool :=
  c = '?' || c = '#'

def isSeparator (k : SchemeKind) (c : Char) : Bool :=
  c = '/' || (c = '\\' && k.takesBackslash)

/-- Whether a text starts with a letter and a colon or bar that end it or stand before the end of
a segment. -/
def startsWithDrive : List Char → Bool
  | a :: b :: s =>
    a.isAlpha && (b = ':' || b = '|') &&
      match s with
      | [] => true
      | c :: _ => ['/', '\\', '?', '#'].contains c
  | _ => false

def isDrive (s : List Char) : Bool :=
  s.length = 2 && startsWithDrive s

/-- Whether a segment is a drive letter with a colon. -/
def isPlainDrive (s : List Char) : Bool :=
  isDrive s && s.getLast? = some ':'

/-- A text in lower case with the escape of the point replaced by a point. -/
def plainPoints : List Char → List Char
  | '%' :: '2' :: c :: s =>
    if c = 'e' ∨ c = 'E' then '.' :: plainPoints s else '%' :: plainPoints ('2' :: c :: s)
  | c :: s => c :: plainPoints s
  | [] => []

/-- The part of a path up to and including its last slash, and the part behind it. -/
def splitLast (path : List Char) : List Char × List Char :=
  let behind := (path.reverse.takeWhile (· ≠ '/')).reverse
  (path.take (path.length - behind.length), behind)

/-- Whether the slash at the end of a path may be taken away: not the root, nor the one behind a
drive letter. -/
def canDropSlash (path : List Char) : Bool :=
  let body := path.dropLast
  let (upTo, behind) := splitLast body
  !upTo.isEmpty && !startsWithDrive (behind ++ ['/'])

def dropSegment (k : SchemeKind) (path : List Char) : List Char :=
  let (upTo, behind) := splitLast path
  if k = .file ∧ isPlainDrive behind then path else upTo

/-- The path after `..`. -/
def parent (k : SchemeKind) (path : List Char) (closed : Bool) : List Char :=
  let path :=
    if path.getLast? = some '/' ∧ canDropSlash path then path.dropLast else path
  let path := dropSegment k path
  if closed ∧ path.getLast? ≠ some '/' then path ++ ['/'] else path

/-- A path being built, and whether a drive letter has taken the place of the host. -/
structure Building where
  path : List Char
  hasDrive : Bool
  deriving Repr

/-- Adds a segment; `closed` says that a separator follows it, `first` that none came before. -/
def addSegment (k : SchemeKind) (b : Building) (segment : List Char) (first closed : Bool) :
    Building :=
  let points := plainPoints segment
  if points = ['.', '.'] then { b with path := parent k b.path closed }
  else if points = ['.'] then
    { b with path := if b.path.getLast? = some '/' then b.path else b.path ++ ['/'] }
  else
    let isFirstDrive := k = .file && first && b.path = ['/'] && isDrive segment
    let segment := if isFirstDrive then segment.take 1 ++ [':'] else segment
    { path := b.path ++ segment ++ if closed then ['/'] else []
      hasDrive := b.hasDrive || isFirstDrive }

/-- Adds the segments of a text up to its end; `segment` holds the characters of the one at hand,
last first. -/
def addSegments (k : SchemeKind) (b : Building) (first : Bool) (segment : List Char) :
    List Char → Building
  | [] => addSegment k b segment.reverse first false
  | c :: s =>
    if endsPath c then addSegment k b segment.reverse first false
    else if isSeparator k c then
      addSegments k (addSegment k b segment.reverse first true) false [] s
    else addSegments k b first (c :: segment) s

/-- The path that a text gives behind `start`, which is empty or a slash. The path of a `file` uri
starts with one slash. -/
def readPath (k : SchemeKind) (start text : List Char) : Building :=
  let b := addSegments k ⟨start, false⟩ true [] text
  if k = .file then { b with path := '/' :: b.path.dropWhile (· = '/') } else b

end LanguageClient.Uri
