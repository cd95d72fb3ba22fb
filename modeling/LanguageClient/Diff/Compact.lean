import LanguageClient.Diff.Block

/-!
# Compacting a comparison

A deletion or an insertion often can stand in several places; compacting
slides it up and then down over equal items, past blocks of the other kind,
and into blocks of its own kind, so that changes end up next to each other.
Sliding over a block of the other kind swaps the two and leaves their starts
as they are.

* `compact` treats every deletion, then every insertion, from first to last.
-/
namespace LanguageClient.Diff

variable {α : Type} [DecidableEq α]

/-- A block among its neighbours; those before it are given nearest first. -/
structure Cursor where
  before : List Block
  block : Block
  after : List Block
  deriving Repr

def weightOf (blocks : List Block) : Nat :=
  blocks.foldr (fun b n => b.weight + n) 0

/-- Equal items put in front of the blocks `after`, into a block of equal items if one is there. -/
def putAfter (equal : Block) (n : Nat) : List Block → List Block
  | next :: rest =>
    if next.kind = .equal then (next.shiftLeft n).lengthen n :: rest else equal :: next :: rest
  | [] => [equal]

/-- Equal items put behind the blocks `before`, into a block of equal items if one is there. -/
def putBefore (equal : Block) (n : Nat) : List Block → List Block
  | previous :: rest =>
    if previous.kind = .equal then previous.lengthen n :: rest else equal :: previous :: rest
  | [] => [equal]

/-- A block put in front of others, unless it is empty. -/
def keep (b : Block) (blocks : List Block) : List Block :=
  if b.isEmpty then blocks else b :: blocks

/-- Slides a block towards the start as far as it goes. -/
def slideUp (old new : List α) : Nat → Cursor → Cursor
  | 0, c => c
  | fuel + 1, c =>
    match c.before with
    | [] => c
    | previous :: rest =>
      if previous.kind = .equal then
        let n := commonSuffix (previous.oldItems old) (c.block.newItems new)
        if n = 0 then
          if previous.isEmpty then slideUp old new fuel { c with before := rest } else c
        else
          slideUp old new fuel
            { before := keep (previous.dropLast n) rest
              block := c.block.shiftLeft n
              after := putAfter (.equal (previous.oldEnd - n) (c.block.newEnd - n) n) n c.after }
      else if previous.kind = c.block.kind then
        let n := if c.block.kind = .delete then c.block.oldLength else c.block.newLength
        slideUp old new fuel { c with before := rest, block := previous.lengthen n }
      else slideUp old new fuel { c with before := rest, after := previous :: c.after }

/-- Slides a block towards the end as far as it goes. -/
def slideDown (old new : List α) : Nat → Cursor → Cursor
  | 0, c => c
  | fuel + 1, c =>
    match c.after with
    | [] => c
    | next :: rest =>
      if next.kind = .equal then
        let n := commonPrefix (next.oldItems old) (c.block.newItems new)
        if n = 0 then
          if next.isEmpty then slideDown old new fuel { c with after := rest } else c
        else
          slideDown old new fuel
            { before := putBefore (.equal next.oldStart c.block.newStart n) n c.before
              block := c.block.shiftRight n
              after := keep (next.dropFirst n) rest }
      else if next.kind = c.block.kind then
        let n := if next.kind = .delete then next.oldLength else next.newLength
        slideDown old new fuel { c with after := rest, block := c.block.lengthen n }
      else slideDown old new fuel { c with before := next :: c.before, after := rest }

def slide (old new : List α) (c : Cursor) : Cursor :=
  let c := slideUp old new (weightOf c.before + 1) c
  slideDown old new (weightOf c.after + 1) c

/-- Slides every block of a kind, from the first to the last; `done` holds the blocks passed,
last first. -/
def slideAll (old new : List α) (kind : Kind) : Nat → List Block → List Block → List Block
  | 0, done, rest => done.reverse ++ rest
  | _ + 1, done, [] => done.reverse
  | fuel + 1, done, b :: rest =>
    if b.kind = kind then
      let c := slide old new ⟨done, b, rest⟩
      slideAll old new kind fuel (c.block :: c.before) c.after
    else slideAll old new kind fuel (b :: done) rest

/-- A bound on how many blocks are passed when all of a kind are slid. -/
def slideBound (old new : List α) (blocks : List Block) : Nat :=
  let n := old.length + new.length + blocks.length + 2
  n * n

/-- The blocks with every deletion and then every insertion slid. -/
def compact (old new : List α) (blocks : List Block) : List Block :=
  let blocks := slideAll old new .delete (slideBound old new blocks) [] blocks
  slideAll old new .insert (slideBound old new blocks) [] blocks

end LanguageClient.Diff
