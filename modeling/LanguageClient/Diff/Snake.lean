import LanguageClient.Diff.Block

/-!
# The middle of an edit script

An edit script is a path through the grid of two sequences, from one corner
to the other: a step right drops an old item, a step down takes a new one, a
diagonal keeps an item of both. The search walks from both corners at once
and keeps, for every diagonal, the furthest column that `d` steps reach; it
ends where the two searches meet. A front is the list of the furthest columns
on the diagonals `d, d - 2, …, -d`.

* `middle?` is the point at which the sequences are cut in two.
-/
namespace LanguageClient.Diff

/-- The columns at which the next front starts, behind a first diagonal that reached `x`. -/
def startsAfter (x : Nat) : List Nat → List Nat
  | [] => [x]
  | y :: rest => (if y < x then x else y + 1) :: startsAfter y rest

/-- The columns at which the front behind a given one starts; the very first starts at zero. -/
def starts : List Nat → List Nat
  | [] => [0]
  | x :: rest => (x + 1) :: startsAfter x rest

/-- The row of column `x` on diagonal `k`. -/
def rowOn (k : Int) (x : Nat) : Nat :=
  ((x : Int) - k).toNat

/-- The furthest column from `x` on diagonal `k` along items that are equal. -/
def extend {α : Type} [DecidableEq α] (a b : List α) (k : Int) (x : Nat) : Nat :=
  x + commonPrefix (a.drop x) (b.drop (rowOn k x))

/-- A front from its starting columns: on each diagonal, from `k` downwards in steps of two, the
diagonal, the starting column and the furthest column. -/
def front {α : Type} [DecidableEq α] (a b : List α) : Int → List Nat → List (Int × Nat × Nat)
  | _, [] => []
  | k, x :: rest => (k, x, extend a b k x) :: front a b (k - 2) rest

/-- The furthest columns of a front. -/
def columns (f : List (Int × Nat × Nat)) : List Nat :=
  f.map fun (_, _, x) => x

/-- The furthest column on diagonal `j` of the front of `d` steps. -/
def columnOn (d : Nat) (f : List Nat) (j : Int) : Nat :=
  f.getD (((d : Int) - j) / 2).toNat 0

/-- The point where the search from the start, in its step `d`, meets the other one. -/
def meetForward? (n : Nat) (delta : Int) (d : Nat) (f : List (Int × Nat × Nat))
    (other : List Nat) : Option (Nat × Nat) :=
  (f.find? fun (k, _, x) =>
    decide ((k - delta).natAbs + 1 ≤ d ∧ n ≤ x + columnOn (d - 1) other (delta - k))).map
    fun (k, x, _) => (x, rowOn k x)

/-- The point where the search from the end, in its step `d`, meets the other one. -/
def meetBackward? (n m : Nat) (delta : Int) (d : Nat) (f : List (Int × Nat × Nat))
    (other : List Nat) : Option (Nat × Nat) :=
  (f.find? fun (k, _, x) =>
    decide ((k - delta).natAbs ≤ d ∧ n ≤ x + columnOn d other (delta - k))).map
    fun (k, _, x) => (n - x, m - rowOn k x)

/-- The search from step `d` on, with the last front from the start and from the end, for at
most `steps` more steps. -/
def search {α : Type} [DecidableEq α] (a b : List α) (delta : Int) :
    Nat → Nat → List Nat → List Nat → Option (Nat × Nat)
  | 0, _, _, _ => none
  | steps + 1, d, forward, backward =>
    let f := front a b d (starts forward)
    let found := if delta % 2 ≠ 0 then meetForward? a.length delta d f backward else none
    match found with
    | some p => some p
    | none =>
      let g := front a.reverse b.reverse d (starts backward)
      let found :=
        if delta % 2 = 0 then meetBackward? a.length b.length delta d g (columns f) else none
      match found with
      | some p => some p
      | none => search a b delta steps (d + 1) (columns f) (columns g)

/-- The point at which two sequences are cut in two: how many items of each lie before it. -/
def middle? {α : Type} [DecidableEq α] (a b : List α) : Option (Nat × Nat) :=
  search a b ((a.length : Int) - (b.length : Int)) ((a.length + b.length + 1) / 2 + 1) 0 [] []

end LanguageClient.Diff
