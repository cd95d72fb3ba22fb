import LanguageClient.Number.Shortest

/-!
# The digits of the shortest decimal

* `shortest_proper`: the decimal of a double that is not zero is not zero.
-/
namespace LanguageClient.Binary64

/-- A decimal that is written without zeros before its first digit: it is not zero, or it is the
zero without an exponent. -/
def Decimal.Proper (d : Decimal) : Prop :=
  d.digits ≠ 0 ∨ d.exponent = 0

theorem Decimal.trim_ne_zero (fuel : Nat) {d : Decimal} (h : d.digits ≠ 0) :
    (Decimal.trim fuel d).digits ≠ 0 := by
  induction fuel generalizing d with
  | zero => exact h
  | succ fuel ih =>
    rw [Decimal.trim]
    split
    · next hzero => exact ih (show d.digits / 10 ≠ 0 by omega)
    · exact h

theorem onGrid_pos {n : Nat} (hn : 0 < n) (e k : Int) : 0 < (onGrid n e k).1 := by
  have hnum : 0 < if 0 ≤ e then n * Nat.pow 2 e.toNat else n := by
    split
    · exact Nat.mul_pos hn (Nat.pow_pos (by decide))
    · exact hn
  unfold onGrid
  dsimp only
  split
  · exact hnum
  · exact Nat.mul_pos hnum (Nat.pow_pos (by decide))

/-- The lower bound of a double that is not zero is not zero: it is at most half a unit below. -/
theorem bounds_pos {x : Binary64} (hx : x.isZero = false) : 0 < x.bounds.2.1 := by
  have hmantissa : x.mantissa ≠ 0 := by simpa [isZero] using hx
  simp only [bounds]
  split <;> omega

/-- What is picked of two candidates passes the test. -/
theorem of_pick {α : Type} (test : α → Bool) {first second c : α}
    (h : (if test first then some first else if test second then some second else none) =
      some c) : test c = true := by
  split at h
  · next htest => rwa [Option.some.inj h] at htest
  · split at h
    · next htest => rwa [Option.some.inj h] at htest
    · cases h

/-- Whether a decimal on a grid rounds to a double: it lies between the bounds, or on one of them
if the mantissa is even. -/
def roundsOnGrid (x : Binary64) (k : Int) (c : Nat) : Bool :=
  let low := onGrid x.bounds.2.1 (x.exponent - 2) k
  let high := onGrid x.bounds.2.2 (x.exponent - 2) k
  let even : Bool := x.mantissa % 2 = 0
  (low.1 < c * low.2 || (even && low.1 = c * low.2)) &&
    (c * high.2 < high.1 || (even && c * high.2 = high.1))

theorem rounds_of_nearestOnGrid? {x : Binary64} {k : Int} {c : Nat}
    (h : nearestOnGrid? x k = some c) : x.roundsOnGrid k c = true :=
  of_pick (x.roundsOnGrid k) h

/-- Zero is no decimal that rounds to a double that is not zero. -/
theorem nearestOnGrid?_ne_zero {x : Binary64} {k : Int} {c : Nat} (hx : x.isZero = false)
    (h : nearestOnGrid? x k = some c) : c ≠ 0 := by
  have hlow := onGrid_pos (bounds_pos hx) (x.exponent - 2) k
  have hrounds := rounds_of_nearestOnGrid? h
  rintro rfl
  simp only [roundsOnGrid, Nat.zero_mul, Bool.and_eq_true, Bool.or_eq_true,
    decide_eq_true_eq] at hrounds
  omega

theorem searchGrids_ne_zero {x : Binary64} (hx : x.isZero = false) (top : Int)
    (more places : Nat) : (searchGrids x top more places).digits ≠ 0 := by
  have hmantissa : x.mantissa ≠ 0 := by simpa [isZero] using hx
  induction more generalizing places with
  | zero => exact hmantissa
  | succ more ih =>
    rw [searchGrids]
    split
    · next hc => exact Decimal.trim_ne_zero 400 (nearestOnGrid?_ne_zero hx hc)
    · exact ih (places + 1)

theorem shortest_proper (x : Binary64) : x.shortest.Proper := by
  unfold shortest
  split
  · exact .inr rfl
  · next hx => exact .inl (searchGrids_ne_zero (Bool.eq_false_iff.2 hx) _ _ _)

end LanguageClient.Binary64
