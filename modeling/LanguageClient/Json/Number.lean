import LanguageClient.Json.Basic

/-!
# Reading JSON numbers

`readNumber?` takes the parts of a number off a text, and
`NumberParts.value?` is what they denote: an integer of at most 64 bits, or a
double. Doubles are not rounded once: as many digits as fit in 64 bits are
scaled by powers of ten, with a rounding each time.
-/
namespace LanguageClient.Json

def isDigit (b : UInt8) : Bool :=
  0x30 ≤ b && b ≤ 0x39

def digitValue (b : UInt8) : Nat :=
  b.toNat - 0x30

/-- The parts of a number: sign, digits before and behind the point, and the exponent. A part
that is not written is `none`. -/
structure NumberParts where
  negative : Bool
  whole : List Nat
  fraction : Option (List Nat)
  exponent : Option (Bool × List Nat)
  deriving Repr

/-- The largest integer a number is kept as. -/
def maxInteger : Nat := 0xFFFFFFFFFFFFFFFF

def maxExponent : Nat := 0x7FFFFFFF

/-- Reads digits into `significand` while it fits in 64 bits; gives back how many digits fitted
and the digits from the first that did not. -/
def accumulate : Nat → Nat → List Nat → Nat × Nat × List Nat
  | significand, count, [] => (significand, count, [])
  | significand, count, d :: ds =>
    if maxInteger < significand * 10 + d then (significand, count, d :: ds)
    else accumulate (significand * 10 + d) (count + 1) ds

/-- `significand * 10 ^ exponent` by one multiplication with, or division by, a power of ten; an
exponent below -308 takes several divisions. -/
def scale : Nat → Binary64 → Int → Option Binary64
  | 0, _, _ => none
  | fuel + 1, x, e =>
    match Binary64.powerOfTen? e.natAbs with
    | some p => if 0 ≤ e then x.mul? p else x.div? p
    | none =>
      if x.isZero then some x
      else if 0 ≤ e then none
      else do
        let p ← Binary64.powerOfTen? 308
        let x ← x.div? p
        scale fuel x (e + 308)

/-- A 32-bit sum that stops at its ends. -/
def saturate (e : Int) : Int :=
  max (-0x80000000) (min 0x7FFFFFFF e)

/-- The double a number with a fraction or an exponent, or out of the range of integers, is read
as: digits that do not fit in 64 bits only count as places. -/
def NumberParts.toDouble? (p : NumberParts) : Option Binary64 := do
  let (significand, _, dropped) := accumulate 0 0 p.whole
  let (significand, places) :=
    match p.fraction with
    | none => (significand, 0)
    | some ds =>
      let (significand, count, _) := accumulate significand 0 ds
      (significand, count)
  let base : Int := (dropped.length : Int) - (places : Int)
  let x ← Binary64.ofNat? false significand
  let magnitude ←
    match p.exponent with
    | none => scale 16 x base
    | some (negative, ds) =>
      let e := ds.foldl (fun e d => e * 10 + d) 0
      if maxExponent < e then
        if significand ≠ 0 ∧ !negative then none else some (Binary64.zero false)
      else scale 16 x (saturate (if negative then base - e else base + e))
  some (if p.negative then magnitude.neg else magnitude)

/-- The value of a number, unless it is out of range. -/
def NumberParts.value? (p : NumberParts) : Option Json :=
  let n := p.whole.foldl (fun n d => n * 10 + d) 0
  if p.fraction.isNone ∧ p.exponent.isNone ∧ !p.negative ∧ n ≤ maxInteger then some (.int n)
  else if p.fraction.isNone ∧ p.exponent.isNone ∧ p.negative ∧ 0 < n ∧ n ≤ 0x8000000000000000 then
    some (.int (-(n : Int)))
  else .float <$> p.toDouble?

/-- Digits at the start of a text, and the rest. -/
def readDigits (s : List UInt8) : List Nat × List UInt8 :=
  ((s.takeWhile isDigit).map digitValue, s.dropWhile isDigit)

def readFraction? : List UInt8 → Option (Option (List Nat) × List UInt8)
  | 0x2E :: s =>
    match readDigits s with
    | ([], _) => none
    | (ds, s) => some (some ds, s)
  | s => some (none, s)

def readExponent? (s : List UInt8) : Option (Option (Bool × List Nat) × List UInt8) :=
  match s with
  | b :: s' =>
    if b = 0x65 ∨ b = 0x45 then
      let (negative, s') :=
        match s' with
        | 0x2D :: s' => (true, s')
        | 0x2B :: s' => (false, s')
        | s' => (false, s')
      match readDigits s' with
      | ([], _) => none
      | (ds, s') => some (some (negative, ds), s')
    else some (none, s)
  | [] => some (none, [])

/-- Reads a number. A zero may not be followed by another digit before the point. -/
def readNumber? (s : List UInt8) : Option (NumberParts × List UInt8) := do
  let (negative, s) :=
    match s with
    | 0x2D :: s => (true, s)
    | s => (false, s)
  let (whole, s) := readDigits s
  if whole = [] ∨ (whole.head? = some 0 ∧ 1 < whole.length) then none
  else do
    let (fraction, s) ← readFraction? s
    let (exponent, s) ← readExponent? s
    some (⟨negative, whole, fraction, exponent⟩, s)

end LanguageClient.Json
