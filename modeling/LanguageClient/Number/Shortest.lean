import LanguageClient.Number.Binary64

/-!
# The shortest decimal of a double

Of all decimals that round back to a double, `shortest` has the fewest
digits, and of those the nearest to the double. `render` writes it the way
JSON numbers are written here: positional from `1e-5` up to below `1e16`,
otherwise one digit, a point, the others and an exponent with its sign.
-/
namespace LanguageClient.Binary64

/-- A decimal `digits * 10 ^ exponent`. -/
structure Decimal where
  digits : Nat
  exponent : Int
  deriving DecidableEq, Repr, Inhabited

/-- The decimals that round to a double lie between two bounds, given in units of a
quarter of the last place: the double itself, the lower and the upper bound. -/
def bounds (x : Binary64) : Nat × Nat × Nat :=
  let v := 4 * x.mantissa
  let below := if x.mantissa = leastNormal ∧ leastExponent < x.exponent then 1 else 2
  (v, v - below, v + 2)

/-- `n * 2 ^ e / 10 ^ k`, as a quotient of naturals. -/
def onGrid (n : Nat) (e k : Int) : Nat × Nat :=
  let num := if 0 ≤ e then n * Nat.pow 2 e.toNat else n
  let den := if 0 ≤ e then 1 else Nat.pow 2 (-e).toNat
  if 0 ≤ k then (num, den * Nat.pow 10 k.toNat) else (num * Nat.pow 10 (-k).toNat, den)

/-- The power of ten of the first digit of a positive double. -/
def magnitude (x : Binary64) : Int :=
  let (n, d) := onGrid x.mantissa x.exponent (-400)
  ((Nat.toDigits 10 (n / d)).length : Int) - 401

/-- The decimal on the grid of `10 ^ k` that rounds to the double, if there is one: of the
double's two neighbours on the grid the nearer one that does, of two equally near the even one. -/
def nearestOnGrid? (x : Binary64) (k : Int) : Option Nat :=
  let (v, low, high) := x.bounds
  let e := x.exponent - 2
  let (n, d) := onGrid v e k
  let (lowN, lowD) := onGrid low e k
  let (highN, highD) := onGrid high e k
  let even : Bool := x.mantissa % 2 = 0
  let rounds (c : Nat) : Bool :=
    (lowN < c * lowD || (even && lowN = c * lowD)) &&
      (c * highD < highN || (even && c * highD = highN))
  let floor := n / d
  let r := n % d
  let first := if 2 * r < d || (2 * r = d && floor % 2 = 0) then floor else floor + 1
  let second := if first = floor then floor + 1 else floor
  if rounds first then some first else if rounds second then some second else none

/-- A decimal without zeros at its end. -/
def Decimal.trim : Nat → Decimal → Decimal
  | 0, d => d
  | fuel + 1, d =>
    if d.digits ≠ 0 ∧ d.digits % 10 = 0 then trim fuel ⟨d.digits / 10, d.exponent + 1⟩ else d

/-- The first grid, from one digit to seventeen, with a decimal that rounds to the double. -/
def searchGrids (x : Binary64) (top : Int) : Nat → Nat → Decimal
  | 0, _ => ⟨x.mantissa, x.exponent⟩
  | more + 1, places =>
    let k := top - places
    match nearestOnGrid? x k with
    | some c => Decimal.trim 400 ⟨c, k⟩
    | none => searchGrids x top more (places + 1)

/-- The shortest decimal that rounds to the double. -/
def shortest (x : Binary64) : Decimal :=
  if x.isZero then ⟨0, 0⟩ else searchGrids x x.magnitude 17 0

/-- The digits of a decimal and the power of ten of the first. -/
def Decimal.scientific (d : Decimal) : List Char × Int :=
  let ds := Nat.toDigits 10 d.digits
  (ds, d.exponent + ((ds.length : Int) - 1))

/-- A decimal in positional notation, with at least one digit on each side of the point. -/
def Decimal.positional (d : Decimal) : List Char :=
  let (ds, e) := d.scientific
  if 0 ≤ d.exponent then ds ++ List.replicate d.exponent.toNat '0' ++ ['.', '0']
  else if 0 ≤ e then ds.take (e.toNat + 1) ++ '.' :: ds.drop (e.toNat + 1)
  else ['0', '.'] ++ List.replicate (-e - 1).toNat '0' ++ ds

/-- A decimal as its first digit, the others behind a point, and an exponent. -/
def Decimal.exponential (d : Decimal) : List Char :=
  let (ds, e) := d.scientific
  let fraction := if ds.length ≤ 1 then [] else '.' :: ds.drop 1
  let sign := if 0 ≤ e then '+' else '-'
  ds.take 1 ++ fraction ++ 'e' :: sign :: Nat.toDigits 10 e.natAbs

def signText (x : Binary64) : List Char :=
  if x.negative then ['-'] else []

def render (x : Binary64) : List Char :=
  let d := x.shortest
  let (_, e) := d.scientific
  x.signText ++ if -5 ≤ e ∧ e < 16 then d.positional else d.exponential

end LanguageClient.Binary64
