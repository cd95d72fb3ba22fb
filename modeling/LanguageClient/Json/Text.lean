import LanguageClient.Json.Basic
import LanguageClient.Text.Utf8

/-!
# Reading JSON strings

`readText?` takes the rest of a string off a text. A string may be well
formed and still denote no text: when its bytes are not UTF-8, or half of a
surrogate pair is escaped.
-/
namespace LanguageClient.Json

def hexValue? (b : UInt8) : Option Nat :=
  if 0x30 ≤ b ∧ b ≤ 0x39 then some (b.toNat - 0x30)
  else if 0x41 ≤ b ∧ b ≤ 0x46 then some (b.toNat - 0x37)
  else if 0x61 ≤ b ∧ b ≤ 0x66 then some (b.toNat - 0x57)
  else none

/-- The UTF-16 unit of four hexadecimal digits. -/
def readUnit? : List UInt8 → Option (Nat × List UInt8)
  | a :: b :: c :: d :: s => do
    let a ← hexValue? a
    let b ← hexValue? b
    let c ← hexValue? c
    let d ← hexValue? d
    some (((a * 16 + b) * 16 + c) * 16 + d, s)
  | _ => none

/-- The byte that a one-letter escape stands for. -/
def escapeByte? (b : UInt8) : Option UInt8 :=
  if b = 0x22 ∨ b = 0x5C ∨ b = 0x2F then some b
  else if b = 0x62 then some 0x08
  else if b = 0x66 then some 0x0C
  else if b = 0x6E then some 0x0A
  else if b = 0x72 then some 0x0D
  else if b = 0x74 then some 0x09
  else none

/-- Whether a UTF-16 unit is the first of a surrogate pair. -/
def isLead (n : Nat) : Bool :=
  0xD800 ≤ n && n < 0xDC00

/-- Whether a UTF-16 unit is the second of a surrogate pair. -/
def isTrail (n : Nat) : Bool :=
  0xDC00 ≤ n && n < 0xE000

/-- The second unit of a surrogate pair, if it is written next. -/
def readTrail? : List UInt8 → Option (Nat × List UInt8)
  | 0x5C :: 0x75 :: s =>
    match readUnit? s with
    | some (n, s) => if isTrail n then some (n, s) else none
    | none => none
  | _ => none

/-- The rest of a string behind its opening quote: the bytes it denotes, or `none` in their
place after half a surrogate pair, and what follows the closing quote. -/
def readString? : Nat → List UInt8 → Option (Option (List UInt8) × List UInt8)
  | 0, _ => none
  | _ + 1, [] => none
  | fuel + 1, b :: s =>
    if b = 0x22 then some (some [], s)
    else if b < 0x20 then none
    else if b = 0x5C then
      match s with
      | 0x75 :: s => do
        let (n, s) ← readUnit? s
        if isLead n then
          match readTrail? s with
          | some (m, s) => do
            let (bytes, s) ← readString? fuel s
            let c := Char.ofNat (0x10000 + (n - 0xD800) * 0x400 + (m - 0xDC00))
            some ((Utf8.encodeChar c ++ ·) <$> bytes, s)
          | none => do
            let (_, s) ← readString? fuel s
            some (none, s)
        else if isTrail n then do
          let (_, s) ← readString? fuel s
          some (none, s)
        else do
          let (bytes, s) ← readString? fuel s
          some ((Utf8.encodeChar (Char.ofNat n) ++ ·) <$> bytes, s)
      | e :: s => do
        let c ← escapeByte? e
        let (bytes, s) ← readString? fuel s
        some ((c :: ·) <$> bytes, s)
      | [] => none
    else do
      let (bytes, s) ← readString? fuel s
      some ((b :: ·) <$> bytes, s)

def readText? (s : List UInt8) : Option (Option String × List UInt8) := do
  let (bytes, s) ← readString? (s.length + 1) s
  some (bytes.bind Utf8.toString?, s)

end LanguageClient.Json
