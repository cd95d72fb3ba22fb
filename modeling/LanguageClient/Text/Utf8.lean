/-!
# UTF-8

Text is a list of characters, its bytes a list of octets. `encode` writes
every character in its one UTF-8 form; `decode?` reads exactly the
well-formed sequences (no overlong form, no surrogate, nothing above
U+10FFFF) and refuses all others.

* `byteLength` counts the octets of `encode` without building them.
-/
namespace LanguageClient.Utf8

/-- The octets of one character, one to four of them. -/
def encodeChar (c : Char) : List UInt8 :=
  let n := c.toNat
  if n < 0x80 then [UInt8.ofNat n]
  else if n < 0x800 then
    [UInt8.ofNat (0xC0 + n / 64), UInt8.ofNat (0x80 + n % 64)]
  else if n < 0x10000 then
    [UInt8.ofNat (0xE0 + n / 4096), UInt8.ofNat (0x80 + n / 64 % 64), UInt8.ofNat (0x80 + n % 64)]
  else
    [UInt8.ofNat (0xF0 + n / 262144), UInt8.ofNat (0x80 + n / 4096 % 64),
      UInt8.ofNat (0x80 + n / 64 % 64), UInt8.ofNat (0x80 + n % 64)]

def encode (s : List Char) : List UInt8 :=
  s.flatMap encodeChar

def charLength (c : Char) : Nat :=
  let n := c.toNat
  if n < 0x80 then 1 else if n < 0x800 then 2 else if n < 0x10000 then 3 else 4

def byteLength (s : List Char) : Nat :=
  s.foldr (fun c n => charLength c + n) 0

/-- The low six bits of a continuation octet. -/
def tail? (b : UInt8) : Option Nat :=
  if 0x80 ≤ b ∧ b < 0xC0 then some (b.toNat - 0x80) else none

def decodeTwo? (a b : UInt8) : Option Char := do
  let y ← tail? b
  if 0xC2 ≤ a ∧ a < 0xE0 then some (Char.ofNat ((a.toNat - 0xC0) * 64 + y)) else none

def decodeThree? (a b c : UInt8) : Option Char := do
  let y ← tail? b
  let z ← tail? c
  if 0xE0 ≤ a ∧ a < 0xF0 then
    let n := (a.toNat - 0xE0) * 4096 + y * 64 + z
    if n < 0x800 ∨ (0xD800 ≤ n ∧ n < 0xE000) then none else some (Char.ofNat n)
  else none

def decodeFour? (a b c d : UInt8) : Option Char := do
  let x ← tail? b
  let y ← tail? c
  let z ← tail? d
  if 0xF0 ≤ a ∧ a < 0xF5 then
    let n := (a.toNat - 0xF0) * 262144 + x * 4096 + y * 64 + z
    if n < 0x10000 ∨ 0x110000 ≤ n then none else some (Char.ofNat n)
  else none

/-- The text a sequence of octets denotes, if it is well formed. -/
def decode? : List UInt8 → Option (List Char)
  | [] => some []
  | a :: rest =>
    if a < 0x80 then (Char.ofNat a.toNat :: ·) <$> decode? rest
    else if a < 0xE0 then
      match rest with
      | b :: rest => do
        let c ← decodeTwo? a b
        (c :: ·) <$> decode? rest
      | _ => none
    else if a < 0xF0 then
      match rest with
      | b :: b₂ :: rest => do
        let c ← decodeThree? a b b₂
        (c :: ·) <$> decode? rest
      | _ => none
    else
      match rest with
      | b :: b₂ :: b₃ :: rest => do
        let c ← decodeFour? a b b₂ b₃
        (c :: ·) <$> decode? rest
      | _ => none

def ofString (s : String) : List UInt8 :=
  encode s.toList

/-- The string that a sequence of octets denotes, if it is well formed. -/
def toString? (bytes : List UInt8) : Option String :=
  String.ofList <$> decode? bytes

@[simp] theorem encode_nil : encode [] = [] := rfl

@[simp] theorem encode_cons (c : Char) (s : List Char) :
    encode (c :: s) = encodeChar c ++ encode s := rfl

theorem encode_append (s t : List Char) : encode (s ++ t) = encode s ++ encode t := by
  simp [encode]

theorem length_encodeChar (c : Char) : (encodeChar c).length = charLength c := by
  unfold encodeChar charLength
  grind

theorem length_encode (s : List Char) : (encode s).length = byteLength s := by
  induction s with
  | nil => rfl
  | cons c s ih => rw [encode_cons, List.length_append, length_encodeChar, ih]; simp [byteLength]

end LanguageClient.Utf8
