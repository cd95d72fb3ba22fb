import LanguageClient.Diff.Snake

/-!
# Edit scripts

`script` compares two sequences by divide and conquer: what they have in
common at their ends is equal; if then one of them is used up, the other is
gone or came; otherwise both are cut at a middle point and the halves
compared.
-/
namespace LanguageClient.Diff

variable {α : Type} [DecidableEq α]

/-- The blocks that compare `a`, which starts at item `i`, to `b`, which starts at item `j`. The
fuel bounds how often they are cut. -/
def conquer : Nat → List α → List α → Nat → Nat → List Block
  | 0, a, b, i, j => [.delete i a.length j, .insert (i + a.length) j b.length]
  | fuel + 1, a, b, i, j =>
    let p := commonPrefix a b
    let a := a.drop p
    let b := b.drop p
    let s := commonSuffix a b
    let a := a.take (a.length - s)
    let b := b.take (b.length - s)
    let i := i + p
    let j := j + p
    let head := if p = 0 then [] else [Block.equal (i - p) (j - p) p]
    let tail := if s = 0 then [] else [Block.equal (i + a.length) (j + b.length) s]
    let body :=
      if a.isEmpty then
        if b.isEmpty then [] else [Block.insert i j b.length]
      else if b.isEmpty then [Block.delete i a.length j]
      else
        match middle? a b with
        | some (x, y) =>
          conquer fuel (a.take x) (b.take y) i j ++
            conquer fuel (a.drop x) (b.drop y) (i + x) (j + y)
        | none => [.delete i a.length j, .insert (i + a.length) j b.length]
    head ++ body ++ tail

/-- The blocks that compare two sequences. -/
def script (old new : List α) : List Block :=
  conquer (old.length + new.length + 1) old new 0 0

end LanguageClient.Diff
