/-!
# Classes of characters

A class is a list of ranges of code points, both ends included. Of the
ranges of one class, none overlap and they are in ascending order.
-/
namespace LanguageClient

/-- A class of characters as ranges of code points. -/
abbrev CharRanges := List (Nat × Nat)

def CharRanges.contains (ranges : CharRanges) (c : Char) : Bool :=
  ranges.any fun (low, high) => low ≤ c.toNat && c.toNat ≤ high

end LanguageClient
