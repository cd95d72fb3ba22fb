import LanguageClient.Diff.Script
import LanguageClient.Diff.Compact

/-!
# Comparing two sequences

`merge` joins deletions and insertions that no equal item parts into one
replacement, and neighbouring blocks of equal items into one. `blocks` is
the comparison of two sequences: edit script, compacted and merged.
-/
namespace LanguageClient.Diff

/-- The blocks not written yet: equal items, or a deletion and an insertion. -/
structure Pending where
  equal : Option Block
  delete : Option Block
  insert : Option Block
  deriving Repr

namespace Pending

def none : Pending := ⟨Option.none, Option.none, Option.none⟩

def change (p : Pending) : List Block :=
  match p.delete, p.insert with
  | some d, some i => [⟨.replace, d.oldStart, d.oldLength, i.newStart, i.newLength⟩]
  | some d, Option.none => [d]
  | Option.none, some i => [i]
  | Option.none, Option.none => []

/-- A block that waits, longer by another one, or that other one. -/
def join (waiting : Option Block) (b : Block) (n : Nat) : Option Block :=
  match waiting with
  | some w => some (w.lengthen n)
  | Option.none => some b

end Pending

/-- The blocks with changes and equal items joined, behind those that wait. -/
def mergeFrom (p : Pending) : List Block → List Block
  | [] => p.equal.toList ++ p.change
  | b :: rest =>
    match b.kind with
    | .equal => p.change ++ mergeFrom ⟨Pending.join p.equal b b.oldLength, none, none⟩ rest
    | .delete =>
      p.equal.toList ++ mergeFrom ⟨none, Pending.join p.delete b b.oldLength, p.insert⟩ rest
    | .insert =>
      p.equal.toList ++ mergeFrom ⟨none, p.delete, Pending.join p.insert b b.newLength⟩ rest
    | .replace => p.equal.toList ++ p.change ++ b :: mergeFrom .none rest

/-- The blocks with changes and equal items joined. -/
def merge (blocks : List Block) : List Block :=
  mergeFrom .none blocks

/-- The comparison of two sequences. -/
def blocks {α : Type} [DecidableEq α] (old new : List α) : List Block :=
  merge (compact old new (script old new))

end LanguageClient.Diff
