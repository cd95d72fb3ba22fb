import LanguageClient.Text.Utf8

/-!
# Texts of the operating system

The value of a variable and the name of a directory are octets of any kind. A
text stands for its octets, and octets are read as a text with replacement
characters in place of what is no UTF-8.

A list of paths is its parts with a colon between them. No colon can be
escaped, so a path with a colon in it cannot be in a list.

* `OsString.parts` takes a list of paths apart, `OsString.joinParts?` puts it
  together.
-/
namespace LanguageClient

namespace Utf8

/-- What stands for octets that denote no character. -/
def replacement : Char := '\uFFFD'

/-- The character that an octet begins, and how many more octets it takes. Octets that break off
are replaced together, as far as they could begin a character. -/
def firstLossy (a : UInt8) (rest : List UInt8) : Char × Nat :=
  if a < 0x80 then (Char.ofNat a.toNat, 0)
  else
    match rest with
    | [] => (replacement, 0)
    | b :: more =>
      if a < 0xE0 then (decodeTwo? a b).elim (replacement, 0) (·, 1)
      -- An octet can come second exactly if it can with the least octets behind it.
      else if a < 0xF0 then
        if (decodeThree? a b 0x80).isNone then (replacement, 0)
        else (more.head?.bind (decodeThree? a b)).elim (replacement, 1) (·, 2)
      else if (decodeFour? a b 0x80 0x80).isNone then (replacement, 0)
      else
        match more with
        | [] => (replacement, 1)
        | b₂ :: more =>
          if (tail? b₂).isNone then (replacement, 1)
          else (more.head?.bind (decodeFour? a b b₂)).elim (replacement, 2) (·, 3)

/-- The text of what is left of some octets when so many are taken. -/
def decodeLossyAfter : Nat → List UInt8 → List Char
  | _, [] => []
  | taken + 1, _ :: rest => decodeLossyAfter taken rest
  | 0, a :: rest => (firstLossy a rest).1 :: decodeLossyAfter (firstLossy a rest).2 rest

/-- The text of a sequence of octets, well formed or not. -/
def decodeLossy (bytes : List UInt8) : List Char :=
  decodeLossyAfter 0 bytes

end Utf8

/-- A text of the operating system. -/
structure OsString where
  bytes : List UInt8
  deriving DecidableEq, Repr, Inhabited

namespace OsString

/-- The octets of a text. -/
def ofText (text : String) : OsString :=
  ⟨Utf8.ofString text⟩

/-- The octets as a text. -/
def lossy (s : OsString) : String :=
  String.ofList (Utf8.decodeLossy s.bytes)

instance : Coe String OsString := ⟨ofText⟩

instance : CoeTail OsString String := ⟨lossy⟩

instance : Coe (List (String × String)) (List (String × OsString)) :=
  ⟨List.map fun (name, value) => (name, value)⟩

/-- A path behind a directory; one from the root stands for itself. -/
def join (directory path : OsString) : OsString :=
  if path.bytes.head? = some 0x2F then path
  else if directory.bytes.getLast?.all (· = 0x2F) then ⟨directory.bytes ++ path.bytes⟩
  else ⟨directory.bytes ++ 0x2F :: path.bytes⟩

/-- What stands between two paths of a list. -/
def separator : UInt8 := 0x3A

/-- The paths of a list; the empty list has one, which is empty. -/
def parts (list : OsString) : List OsString :=
  (list.bytes.splitOn separator).map mk

/-- Some paths one behind the other, with separators between them. -/
def joined (paths : List OsString) : OsString :=
  ⟨[separator].intercalate (paths.map bytes)⟩

/-- The list of some paths, if there is no separator in any of them. -/
def joinParts? (paths : List OsString) : Option OsString :=
  if paths.any fun path => path.bytes.contains separator then none else some (joined paths)

end OsString

end LanguageClient
