/-!
# Double-precision numbers

A finite double is a sign, a mantissa below `2 ^ 53` and an exponent of two.
Arithmetic is exact in the naturals and rounds once, to the nearest double,
a tie to the even mantissa; a result beyond the largest double is no double.

* `ofRatio?` rounds a quotient of naturals.
* `mul?`, `div?` round an exact product and quotient.
-/
namespace LanguageClient

/-- A finite double `±mantissa * 2 ^ exponent`. A normal number has a mantissa of
exactly 53 bits; below that the exponent is the least one, -1074. -/
structure Binary64 where
  negative : Bool
  mantissa : Nat
  exponent : Int
  deriving DecidableEq, Repr, Inhabited

namespace Binary64

/-- The exponent of the subnormal numbers. -/
def leastExponent : Int := -1074

/-- The exponent of the largest double. -/
def greatestExponent : Int := 971

/-- The least mantissa of a normal number, which has 53 bits. -/
def leastNormal : Nat := 0x10000000000000

def zero (negative : Bool) : Binary64 :=
  ⟨negative, 0, leastExponent⟩

/-- Whether a double is zero, of either sign. -/
def isZero (x : Binary64) : Bool :=
  x.mantissa = 0

/-- The natural number nearest to `num / den`, a tie to the even one. -/
def roundQuotient (num den : Nat) : Nat :=
  let q := num / den
  let r := num % den
  if 2 * r < den then q
  else if den < 2 * r then q + 1
  else q + q % 2

/-- `num / den` in units of `2 ^ e`, as a quotient of naturals. -/
def inUnits (num den : Nat) (e : Int) : Nat × Nat :=
  if 0 ≤ e then (num, den * Nat.pow 2 e.toNat) else (num * Nat.pow 2 (-e).toNat, den)

/-- The exponent at which `num / den` has a mantissa of 53 bits, or the least one. -/
def exponentOf (num den : Nat) : Int :=
  let e : Int := (Nat.log2 num : Int) - (Nat.log2 den : Int) - 52
  let (n, d) := inUnits num den e
  max leastExponent (if n < d * leastNormal then e - 1 else e)

/-- The double nearest to `num / den`, unless that lies beyond the largest double. -/
def ofRatio? (negative : Bool) (num den : Nat) : Option Binary64 :=
  if num = 0 then some (zero negative)
  else
    let e := exponentOf num den
    let (n, d) := inUnits num den e
    let m := roundQuotient n d
    let (m, e) := if m = 2 * leastNormal then (leastNormal, e + 1) else (m, e)
    if greatestExponent < e then none else some ⟨negative, m, e⟩

/-- The double nearest to a natural number. -/
def ofNat? (negative : Bool) (n : Nat) : Option Binary64 :=
  ofRatio? negative n 1

/-- The magnitude of a double as a quotient of naturals. -/
def ratio (x : Binary64) : Nat × Nat :=
  if 0 ≤ x.exponent then (x.mantissa * Nat.pow 2 x.exponent.toNat, 1)
  else (x.mantissa, Nat.pow 2 (-x.exponent).toNat)

/-- The rounded product. -/
def mul? (x y : Binary64) : Option Binary64 :=
  let (a, b) := x.ratio
  let (c, d) := y.ratio
  ofRatio? (x.negative != y.negative) (a * c) (b * d)

/-- The rounded quotient; there is none by zero. -/
def div? (x y : Binary64) : Option Binary64 :=
  let (a, b) := x.ratio
  let (c, d) := y.ratio
  if y.isZero then none else ofRatio? (x.negative != y.negative) (a * d) (b * c)

/-- The double nearest to `10 ^ k`. -/
def powerOfTen? (k : Nat) : Option Binary64 :=
  if k ≤ 308 then ofNat? false (Nat.pow 10 k) else none

def neg (x : Binary64) : Binary64 :=
  { x with negative := !x.negative }

/-- The double nearest to `digits * 10 ^ exponent`, rounded once. -/
def ofDecimal? (negative : Bool) (digits : Nat) (exponent : Int) : Option Binary64 :=
  if digits = 0 then some (zero negative)
  else
    let places : Int := (Nat.toDigits 10 digits).length
    if 400 < places + exponent then none
    else if places + exponent < -400 then some (zero negative)
    else if 0 ≤ exponent then ofRatio? negative (digits * Nat.pow 10 exponent.toNat) 1
    else ofRatio? negative digits (Nat.pow 10 (-exponent).toNat)

end Binary64

end LanguageClient
