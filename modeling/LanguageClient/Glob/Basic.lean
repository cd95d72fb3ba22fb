import LanguageClient.Text.Utf8

/-!
# Glob patterns

A pattern is a list of tokens and matches the bytes of a whole path. A token
may match several beginnings of what is left of the path; `rests` lists what
remains behind each of them.

* `?` and `*` stop at a slash, a class does not.
* `**` stands for any directories: at the start, in the middle or at the end.
-/
namespace LanguageClient.Glob

inductive Token where
  | literal (bytes : List UInt8)
  | one
  | many
  | leading
  | between
  | trailing
  | oneOf (negated : Bool) (ranges : List (UInt8 × UInt8))
  | alternatives (branches : List (List Token))
  deriving Repr, Inhabited

/-- The byte that parts the components of a path. -/
def slash : UInt8 := 0x2F

/-- All ends of a list of bytes, the list itself first. -/
def tails : List UInt8 → List (List UInt8)
  | [] => [[]]
  | b :: s => (b :: s) :: tails s

/-- What is left behind each slash. -/
def behindSlashes : List UInt8 → List (List UInt8)
  | [] => []
  | b :: s => if b = slash then s :: behindSlashes s else behindSlashes s

/-- What is left behind each run without a slash at the start. -/
def withinComponent : List UInt8 → List (List UInt8)
  | [] => [[]]
  | b :: s => if b = slash then [b :: s] else (b :: s) :: withinComponent s

/-- What is left behind a given beginning. -/
def strip? : List UInt8 → List UInt8 → Option (List UInt8)
  | [], s => some s
  | b :: bs, c :: s => if b = c then strip? bs s else none
  | _ :: _, [] => none

def inRanges (ranges : List (UInt8 × UInt8)) (b : UInt8) : Bool :=
  ranges.any fun (low, high) => low ≤ b && b ≤ high

mutual

/-- Whether a token has no branch to match by and so stands for nothing. -/
def isVoid : Token → Bool
  | .alternatives branches => branchesVoid branches
  | _ => false

/-- Whether all tokens stand for nothing. -/
def allVoid : List Token → Bool
  | [] => true
  | t :: ts => isVoid t && allVoid ts

/-- Whether all branches are lists of tokens that stand for nothing. -/
def branchesVoid : List (List Token) → Bool
  | [] => true
  | b :: bs => allVoid b && branchesVoid bs

end

mutual

/-- What is left behind each beginning that a token matches. -/
def rests : Token → List UInt8 → List (List UInt8)
  | .literal bytes, s => (strip? bytes s).toList
  | .one, s =>
    match s with
    | b :: s => if b = slash then [] else [s]
    | [] => []
  | .many, s => withinComponent s
  | .leading, s => s :: behindSlashes s
  | .between, s =>
    match s with
    | b :: s => if b = slash then s :: behindSlashes s else []
    | [] => []
  | .trailing, s =>
    match s with
    | b :: s => if b = slash then tails s else []
    | [] => []
  | .oneOf negated ranges, s =>
    match s with
    | b :: s => if inRanges ranges b != negated then [s] else []
    | [] => []
  | .alternatives branches, s => if branchesVoid branches then [s] else branchRests branches s

/-- What is left behind each beginning that some tokens match one after another. -/
def allRests : List Token → List UInt8 → List (List UInt8)
  | [], s => [s]
  | t :: ts, s => ((rests t s).flatMap (allRests ts)).eraseDups

/-- What is left behind each beginning that one of some branches matches; a branch that stands
for nothing is left out. -/
def branchRests : List (List Token) → List UInt8 → List (List UInt8)
  | [], _ => []
  | b :: bs, s => (if allVoid b then [] else allRests b s) ++ branchRests bs s

end

/-- Whether a pattern matches the bytes of a path. The pattern that is only `**` matches all. -/
def matchesBytes : List Token → List UInt8 → Bool
  | [.leading], _ => true
  | ts, s => (allRests ts s).contains []

def matchesPath (tokens : List Token) (path : String) : Bool :=
  matchesBytes tokens (Utf8.ofString path)

end LanguageClient.Glob
