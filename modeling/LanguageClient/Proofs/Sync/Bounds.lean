import Mathlib
import LanguageClient.Sync
import LanguageClient.Proofs.Diff.Arrays
import LanguageClient.Proofs.Diff.Checked
import LanguageClient.Proofs.Diff.Merge

/-!
# No look-up out of range

The events of a comparison come from slices of the lines and from the last of
some removed ones. Here every slice and look-up of them can fail, and so can
every subtraction, of the events as of the compaction before; the searches of
the comparison share two arrays that hold anything to begin with.

* `blocks_inRange`: what the blocks of a comparison take is there, all of it in order.
* `incremental_inRange`: nothing fails, for any two texts.
-/
namespace LanguageClient

namespace Diff

/-! ## Ranges -/

/-- Ranges, each with its start and its length, that take something and lie one after another from
`i` to `j`. -/
def Chain : Nat → Nat → List (Nat × Nat) → Prop
  | i, j, [] => i = j
  | i, j, (start, length) :: rs => start = i ∧ 0 < length ∧ Chain (i + length) j rs

/-- The ranges of the old sequence in a comparison: what is equal, gone or replaced. -/
def oldRanges (bs : List Block) : List (Nat × Nat) :=
  (bs.filter fun x => x.kind ≠ .insert).map fun x => (x.oldStart, x.oldLength)

/-- The ranges of the new sequence in a comparison: what is equal, came or is put in place. -/
def newRanges (bs : List Block) : List (Nat × Nat) :=
  (bs.filter fun x => x.kind ≠ .delete).map fun x => (x.newStart, x.newLength)

/-- A block takes items that two sequences have: something of each that its kind speaks of, and the
same of both if it holds equal items. -/
structure Block.InRange {α : Type} (a b : List α) (x : Block) : Prop where
  old : x.kind ≠ .insert → 1 ≤ x.oldLength ∧ x.oldStart + x.oldLength ≤ a.length
  new : x.kind ≠ .delete → 1 ≤ x.newLength ∧ x.newStart + x.newLength ≤ b.length
  equal : x.kind = .equal → x.oldLength = x.newLength ∧ x.oldItems a = x.newItems b

variable {α : Type} {a b : List α} {o n : Nat} {x : Block} {bs : List Block} {changed : Bool}

theorem Joins.old (h : Joins a b o n x) (hk : x.kind ≠ .insert) :
    x.oldStart = o ∧ 0 < x.oldLength := by
  cases hx : x.kind with
  | equal =>
    obtain ⟨ho, -, -, -, hl⟩ := (fits_equal hx).1 (h.fits hx)
    exact ⟨ho, hl⟩
  | delete =>
    obtain ⟨ho, -, hl, -⟩ := h.deleted hx
    exact ⟨ho, hl⟩
  | insert => exact absurd hx hk
  | replace =>
    obtain ⟨ho, -, hl, -⟩ := h.replaced hx
    exact ⟨ho, hl⟩

theorem Joins.new (h : Joins a b o n x) (hk : x.kind ≠ .delete) :
    x.newStart = n ∧ 0 < x.newLength := by
  cases hx : x.kind with
  | equal =>
    obtain ⟨-, hn, hl, -, hpos⟩ := (fits_equal hx).1 (h.fits hx)
    exact ⟨hn, hl ▸ hpos⟩
  | delete => exact absurd hx hk
  | insert =>
    obtain ⟨hn, -, hl⟩ := h.inserted hx
    exact ⟨hn, hl⟩
  | replace =>
    obtain ⟨-, hn, -, hl⟩ := h.replaced hx
    exact ⟨hn, hl⟩

/-- The old sequence is used up in order, and an insertion uses nothing of it. -/
theorem Remains.chain_old (h : Remains a b changed o n bs) : Chain o a.length (oldRanges bs) := by
  induction bs generalizing changed o n with
  | nil => exact h.old
  | cons x bs ih =>
    have ih := ih h.tail
    have hj := h.merged.2.1
    by_cases hk : x.kind = .insert
    · rw [(hj.inserted hk).2.1, Nat.add_zero] at ih
      simpa [oldRanges, hk] using ih
    · obtain ⟨ho, hl⟩ := hj.old hk
      simpa [oldRanges, hk, Chain, ho, hl] using ih

/-- So is the new one, and a deletion uses nothing of it. -/
theorem Remains.chain_new (h : Remains a b changed o n bs) : Chain n b.length (newRanges bs) := by
  induction bs generalizing changed o n with
  | nil => exact h.new
  | cons x bs ih =>
    have ih := ih h.tail
    have hj := h.merged.2.1
    by_cases hk : x.kind = .delete
    · rw [(hj.deleted hk).2.1, Nat.add_zero] at ih
      simpa [newRanges, hk] using ih
    · obtain ⟨hn, hl⟩ := hj.new hk
      simpa [newRanges, hk, Chain, hn, hl] using ih

theorem Remains.inRange (h : Remains a b changed o n bs) : ∀ x ∈ bs, x.InRange a b := by
  induction bs generalizing changed o n with
  | nil => simp
  | cons x bs ih =>
    refine List.forall_mem_cons.2 ⟨⟨fun hk => ?_, fun hk => ?_, fun hk => ?_⟩, ih h.tail⟩
    · obtain ⟨rfl, hl⟩ := h.merged.2.1.old hk
      have ho := h.old
      rw [oldTotal_cons] at ho
      exact ⟨hl, by omega⟩
    · obtain ⟨rfl, hl⟩ := h.merged.2.1.new hk
      have hn := h.new
      rw [newTotal_cons] at hn
      exact ⟨hl, by omega⟩
    · obtain ⟨-, -, hl, hitems, -⟩ := (fits_equal hk).1 (h.merged.2.1.fits hk)
      exact ⟨hl.symm, hitems⟩

/-- The blocks of a comparison are in range and take both sequences in order. -/
theorem blocks_inRange [DecidableEq α] (a b : List α) :
    (∀ x ∈ blocks a b, x.InRange a b) ∧
      Chain 0 a.length (oldRanges (blocks a b)) ∧ Chain 0 b.length (newRanges (blocks a b)) :=
  have hremains := (blocks_remains a b).1
  ⟨hremains.inRange, hremains.chain_old, hremains.chain_new⟩

end Diff

namespace Sync

open Diff

/-! ## Events with checked look-up -/

/-- The `length` items of a sequence from `start` on, if it has them. -/
def slice? {α : Type} (l : List α) (start length : Nat) : Option (List α) :=
  if start + length ≤ l.length then some ((l.drop start).take length) else none

/-- The range of the `oldLength` old lines from `oldStart` on, which now start at line `start`: its
end depends on the last of them. -/
def removedRange? (old : List (List Char)) (oldStart oldLength start : Nat) : Option Range := do
  let last ← old[← Nat.psub (oldStart + oldLength) 1]?
  if Line.isTerminated last then
    return ⟨⟨lineNumber start, 0⟩, ⟨lineNumber (start + oldLength), 0⟩⟩
  else
    let line ← Nat.psub (start + oldLength) 1
    return ⟨⟨lineNumber start, 0⟩, ⟨lineNumber line, UInt32.ofNat (Utf16.length last)⟩⟩

def addBlock? (old new : List (List Char)) (events : List ChangeEvent) (x : Block) :
    Option (List ChangeEvent) :=
  match x.kind with
  | .equal => some events
  | .delete => do
    let range ← removedRange? old x.oldStart x.oldLength x.newStart
    return .ranged range "" :: events
  | .insert => do
    let lines ← slice? new x.newStart x.newLength
    return addInsertion x.newStart (String.ofList lines.flatten) events
  | .replace => do
    let range ← removedRange? old x.oldStart x.oldLength x.newStart
    let lines ← slice? new x.newStart x.newLength
    return .ranged range (String.ofList lines.flatten) :: events

/-- `lineChanges` with checked look-up and subtraction, and with searches that share the arrays
`v`. -/
def lineChanges? (v : Arrays) (old new : List (List Char)) : Option (List ChangeEvent) := do
  let script := (conquerIn (old.length + new.length + 1) old new 0 0 v).1
  let compacted ← compact? old new script
  let events ← (merge compacted).foldlM (addBlock? old new) []
  return events.reverse

/-- `incrementalChanges` with checked look-up and subtraction, and with searches that share the
arrays `v`. -/
def incrementalChanges? (v : Arrays) (old new : String) : Option (List ChangeEvent) := do
  let events ← lineChanges? v (Line.split old.toList) (Line.split new.toList)
  return if ChangeEvent.applyAll? old.toList events = some new.toList then events
    else [.full new]

variable {a b : List (List Char)} {x : Block}

theorem slice?_eq (h : x.newStart + x.newLength ≤ b.length) :
    slice? b x.newStart x.newLength = some (x.newItems b) :=
  if_pos h

theorem removedRange?_eq {start : Nat} (hl : 1 ≤ x.oldLength)
    (h : x.oldStart + x.oldLength ≤ a.length) :
    removedRange? a x.oldStart x.oldLength start = some (removedRange (x.oldItems a) start) := by
  have hlength : (x.oldItems a).length = x.oldLength := length_stretch h
  have hlast : (x.oldItems a).getLast? = a[x.oldStart + x.oldLength - 1]? := by
    rw [List.getLast?_eq_getElem?, hlength, Block.oldItems, List.getElem?_take_of_lt (by omega),
      List.getElem?_drop, Nat.add_sub_assoc hl]
  have hsome : a[x.oldStart + x.oldLength - 1]? = some a[x.oldStart + x.oldLength - 1] :=
    List.getElem?_eq_getElem (by omega)
  simp only [removedRange?, removedRange, hlast, hlength, hsome, Option.getD_some,
    Nat.psub_eq_sub (Nat.le_trans hl (Nat.le_add_left _ _)), Option.bind_eq_bind, Option.bind_some]
  split <;> rfl

theorem addBlock?_eq (h : x.InRange a b) (events : List ChangeEvent) :
    addBlock? a b events x = some (addBlock a b events x) := by
  unfold addBlock? addBlock
  cases hk : x.kind with
  | equal => rfl
  | delete =>
    obtain ⟨hl, ho⟩ := h.old (by simp [hk])
    simp [removedRange?_eq hl ho]
  | insert => simp [slice?_eq (h.new (by simp [hk])).2]
  | replace =>
    obtain ⟨hl, ho⟩ := h.old (by simp [hk])
    simp [removedRange?_eq hl ho, slice?_eq (h.new (by simp [hk])).2]

theorem foldlM_addBlock? {bs : List Block} (h : ∀ x ∈ bs, x.InRange a b)
    (events : List ChangeEvent) :
    bs.foldlM (addBlock? a b) events = some (bs.foldl (addBlock a b) events) := by
  induction bs generalizing events with
  | nil => rfl
  | cons x bs ih =>
    rw [List.foldlM_cons, addBlock?_eq (h x List.mem_cons_self)]
    exact ih (fun y hy => h y (List.mem_cons_of_mem _ hy)) _

theorem lineChanges?_eq (v : Arrays) (a b : List (List Char)) :
    lineChanges? v a b = some (lineChanges a b) := by
  have hblocks : merge (compact a b (script a b)) = blocks a b := rfl
  simp only [lineChanges?, conquerIn_eq]
  rw [← script, compact?_script]
  simp [hblocks, foldlM_addBlock? (blocks_inRange a b).1, lineChanges]

/-- **No panic.** For any two texts, and whatever the arrays of the comparison hold at first, no
subtraction of the compaction fails, and no slice, look-up or subtraction of the events. The blocks
of the comparison take lines that are there, equal ones where they say so, and take all lines of
both texts in order. -/
theorem incremental_inRange (old new : String) (v : Arrays) :
    let a := Line.split old.toList
    let b := Line.split new.toList
    incrementalChanges? v old new = some (incrementalChanges old new) ∧
      blocksIn v a b = blocks a b ∧
      (∀ x ∈ blocks a b, x.InRange a b) ∧
      Chain 0 a.length (oldRanges (blocks a b)) ∧ Chain 0 b.length (newRanges (blocks a b)) := by
  intro a b
  refine ⟨?_, blocksIn_eq v a b, blocks_inRange a b⟩
  simp only [incrementalChanges?, lineChanges?_eq]
  rfl

end Sync

end LanguageClient
