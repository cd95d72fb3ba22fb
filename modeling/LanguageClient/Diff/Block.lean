/-!
# Blocks of a comparison

A comparison of two sequences is a list of blocks: items that both have,
items of the old one that are gone, items of the new one that came, and,
where both happen in one place, a replacement. A block says where it starts
in each sequence and how many items of each it takes.
-/
namespace LanguageClient.Diff

/-- What became of the items of a block. -/
inductive Kind where
  | equal
  | delete
  | insert
  | replace
  deriving DecidableEq, Repr, Inhabited

structure Block where
  kind : Kind
  oldStart : Nat
  oldLength : Nat
  newStart : Nat
  newLength : Nat
  deriving DecidableEq, Repr, Inhabited

namespace Block

def equal (oldStart newStart length : Nat) : Block :=
  ⟨.equal, oldStart, length, newStart, length⟩

/-- Items of the old sequence that are gone. -/
def delete (oldStart oldLength newStart : Nat) : Block :=
  ⟨.delete, oldStart, oldLength, newStart, 0⟩

def insert (oldStart newStart newLength : Nat) : Block :=
  ⟨.insert, oldStart, 0, newStart, newLength⟩

def oldEnd (b : Block) : Nat := b.oldStart + b.oldLength

def newEnd (b : Block) : Nat := b.newStart + b.newLength

def isEmpty (b : Block) : Bool := b.oldLength = 0 && b.newLength = 0

def oldItems {α : Type} (old : List α) (b : Block) : List α :=
  (old.drop b.oldStart).take b.oldLength

def newItems {α : Type} (new : List α) (b : Block) : List α :=
  (new.drop b.newStart).take b.newLength

def shiftLeft (b : Block) (n : Nat) : Block :=
  { b with oldStart := b.oldStart - n, newStart := b.newStart - n }

def shiftRight (b : Block) (n : Nat) : Block :=
  { b with oldStart := b.oldStart + n, newStart := b.newStart + n }

/-- The lengths of a block that takes `n` more items: of both sequences, or of the one it is
about. -/
def lengthen (b : Block) (n : Nat) : Block :=
  match b.kind with
  | .delete => { b with oldLength := b.oldLength + n }
  | .insert => { b with newLength := b.newLength + n }
  | _ => { b with oldLength := b.oldLength + n, newLength := b.newLength + n }

/-- A block of equal items without its last `n`. -/
def dropLast (b : Block) (n : Nat) : Block :=
  { b with oldLength := b.oldLength - n, newLength := b.newLength - n }

/-- A block of equal items without its first `n`. -/
def dropFirst (b : Block) (n : Nat) : Block :=
  (b.dropLast n).shiftRight n

/-- How many items a block takes, and one more. -/
def weight (b : Block) : Nat := b.oldLength + b.newLength + 1

end Block

/-- How many items two sequences have in common at their starts. -/
def commonPrefix {α : Type} [DecidableEq α] : List α → List α → Nat
  | a :: as, b :: bs => if a = b then commonPrefix as bs + 1 else 0
  | _, _ => 0

/-- How many items two sequences have in common at their ends. -/
def commonSuffix {α : Type} [DecidableEq α] (a b : List α) : Nat :=
  commonPrefix a.reverse b.reverse

end LanguageClient.Diff
