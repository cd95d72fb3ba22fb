import Mathlib
import LanguageClient.Proofs.Diff.Compact

/-!
# Compaction with checked subtraction

Compaction moves blocks towards the start by subtracting from where they are
recorded, and what is recorded need not be where a block is: one that has
passed a block of the other kind keeps its old numbers. Here every subtraction
fails where it would go below zero.

No block is recorded before as many items of each sequence as the equal items
in front of it (`Floored`). Sliding over equal items takes from a block only
what it takes from these, and passing a change takes nothing from either.

* `compact?_script`: compaction of the script of two sequences goes through.
-/
namespace LanguageClient.Diff

namespace Block

/-- `shiftLeft`, if there is room. -/
def shiftLeft? (b : Block) (n : Nat) : Option Block := do
  let oldStart ← Nat.psub b.oldStart n
  let newStart ← Nat.psub b.newStart n
  return { b with oldStart := oldStart, newStart := newStart }

def dropLast? (b : Block) (n : Nat) : Option Block := do
  let oldLength ← Nat.psub b.oldLength n
  let newLength ← Nat.psub b.newLength n
  return { b with oldLength := oldLength, newLength := newLength }

/-- How many equal items a block holds. -/
def common (b : Block) : Nat := if b.kind = .equal then b.oldLength else 0

end Block

/-- `putAfter`, if the block of equal items that is there can be moved. -/
def putAfter? (equal : Block) (n : Nat) : List Block → Option (List Block)
  | next :: rest =>
    if next.kind = .equal then do
      let next ← next.shiftLeft? n
      return next.lengthen n :: rest
    else some (equal :: next :: rest)
  | [] => some [equal]

variable {α : Type} [DecidableEq α]

def slideUp? (old new : List α) : Nat → Cursor → Option Cursor
  | 0, c => some c
  | fuel + 1, c =>
    match c.before with
    | [] => some c
    | previous :: rest =>
      if previous.kind = .equal then
        let n := commonSuffix (previous.oldItems old) (c.block.newItems new)
        if n = 0 then
          if previous.isEmpty then slideUp? old new fuel { c with before := rest } else some c
        else do
          let oldStart ← Nat.psub previous.oldEnd n
          let newStart ← Nat.psub c.block.newEnd n
          let after ← putAfter? (.equal oldStart newStart n) n c.after
          let block ← c.block.shiftLeft? n
          let previous ← previous.dropLast? n
          slideUp? old new fuel ⟨keep previous rest, block, after⟩
      else if previous.kind = c.block.kind then
        let n := if c.block.kind = .delete then c.block.oldLength else c.block.newLength
        slideUp? old new fuel { c with before := rest, block := previous.lengthen n }
      else slideUp? old new fuel { c with before := rest, after := previous :: c.after }

def slideDown? (old new : List α) : Nat → Cursor → Option Cursor
  | 0, c => some c
  | fuel + 1, c =>
    match c.after with
    | [] => some c
    | next :: rest =>
      if next.kind = .equal then
        let n := commonPrefix (next.oldItems old) (c.block.newItems new)
        if n = 0 then
          if next.isEmpty then slideDown? old new fuel { c with after := rest } else some c
        else do
          let shorter ← next.dropLast? n
          slideDown? old new fuel
            { before := putBefore (.equal next.oldStart c.block.newStart n) n c.before
              block := c.block.shiftRight n
              after := keep (shorter.shiftRight n) rest }
      else if next.kind = c.block.kind then
        let n := if next.kind = .delete then next.oldLength else next.newLength
        slideDown? old new fuel { c with after := rest, block := c.block.lengthen n }
      else slideDown? old new fuel { c with before := next :: c.before, after := rest }

def slide? (old new : List α) (c : Cursor) : Option Cursor := do
  let c ← slideUp? old new (weightOf c.before + 1) c
  slideDown? old new (weightOf c.after + 1) c

def slideAll? (old new : List α) (kind : Kind) :
    Nat → List Block → List Block → Option (List Block)
  | 0, done, rest => some (done.reverse ++ rest)
  | _ + 1, done, [] => some done.reverse
  | fuel + 1, done, b :: rest =>
    if b.kind = kind then do
      let c ← slide? old new ⟨done, b, rest⟩
      slideAll? old new kind fuel (c.block :: c.before) c.after
    else slideAll? old new kind fuel (b :: done) rest

def compact? (old new : List α) (blocks : List Block) : Option (List Block) := do
  let blocks ← slideAll? old new .delete (slideBound old new blocks) [] blocks
  slideAll? old new .insert (slideBound old new blocks) [] blocks

/-! ## Where blocks are recorded at least -/

/-- A block behind `q` equal items is not recorded before item `q` of either sequence. -/
structure Block.Floored (q : Nat) (x : Block) : Prop where
  old : q ≤ x.oldStart
  new : q ≤ x.newStart
  lengths : x.kind = .equal → x.newLength = x.oldLength

/-- Blocks behind `q` equal items. -/
def Floored : Nat → List Block → Prop
  | _, [] => True
  | q, x :: bs => x.Floored q ∧ Floored (q + x.common) bs

/-- How many equal items some blocks hold. -/
def commonTotal (bs : List Block) : Nat :=
  (bs.map Block.common).sum

@[simp] theorem commonTotal_nil : commonTotal [] = 0 := rfl

@[simp] theorem commonTotal_cons (x : Block) (bs : List Block) :
    commonTotal (x :: bs) = x.common + commonTotal bs := by
  simp [commonTotal]

@[simp] theorem commonTotal_append (bs cs : List Block) :
    commonTotal (bs ++ cs) = commonTotal bs + commonTotal cs := by
  simp [commonTotal]

@[simp] theorem commonTotal_reverse (bs : List Block) :
    commonTotal bs.reverse = commonTotal bs := by
  simp [commonTotal]

theorem floored_append {q : Nat} (bs cs : List Block) :
    Floored q (bs ++ cs) ↔ Floored q bs ∧ Floored (q + commonTotal bs) cs := by
  induction bs generalizing q with
  | nil => simp [Floored]
  | cons x bs ih => simp [Floored, ih, and_assoc, Nat.add_assoc]

namespace Block

variable {x : Block} {q n : Nat}

theorem common_of_equal (h : x.kind = .equal) : x.common = x.oldLength := if_pos h

theorem common_of_change (h : x.kind ≠ .equal) : x.common = 0 := if_neg h

@[simp] theorem common_shiftLeft (x : Block) (n : Nat) : (x.shiftLeft n).common = x.common := rfl

@[simp] theorem common_shiftRight (x : Block) (n : Nat) : (x.shiftRight n).common = x.common := rfl

theorem common_dropLast (h : x.kind = .equal) : (x.dropLast n).common = x.oldLength - n := if_pos h

theorem shiftLeft?_eq (h : x.Floored q) (hn : n ≤ q) : x.shiftLeft? n = some (x.shiftLeft n) := by
  simp [shiftLeft?, shiftLeft, Nat.psub_eq_sub (Nat.le_trans hn h.old),
    Nat.psub_eq_sub (Nat.le_trans hn h.new)]

theorem dropLast?_eq (h : x.Floored q) (hk : x.kind = .equal) (hn : n ≤ x.oldLength) :
    x.dropLast? n = some (x.dropLast n) := by
  have hn' : n ≤ x.newLength := by rwa [h.lengths hk]
  simp [dropLast?, dropLast, Nat.psub_eq_sub hn, Nat.psub_eq_sub hn']

theorem Floored.shiftLeft (h : x.Floored (q + n)) : (x.shiftLeft n).Floored q where
  old := Nat.le_sub_of_add_le h.old
  new := Nat.le_sub_of_add_le h.new
  lengths := h.lengths

theorem Floored.shiftRight (h : x.Floored q) : (x.shiftRight n).Floored (q + n) where
  old := Nat.add_le_add_right h.old n
  new := Nat.add_le_add_right h.new n
  lengths := h.lengths

theorem Floored.dropLast (h : x.Floored q) : (x.dropLast n).Floored q where
  old := h.old
  new := h.new
  lengths hk := congrArg (· - n) (h.lengths hk)

theorem Floored.lengthen (h : x.Floored q) : (x.lengthen n).Floored q := by
  obtain ⟨ho, hn, hl⟩ := h
  unfold Block.lengthen
  cases hk : x.kind with
  | equal => exact ⟨ho, hn, fun _ => congrArg (· + n) (hl hk)⟩
  | delete => exact ⟨ho, hn, fun h => nomatch h⟩
  | insert => exact ⟨ho, hn, fun h => nomatch h⟩
  | replace => exact ⟨ho, hn, fun h => nomatch h⟩

end Block

theorem floored_keep {q : Nat} {x : Block} {bs : List Block} (h : Floored q (x :: bs)) :
    Floored q (keep x bs) := by
  unfold keep
  split
  · rename_i he
    simp only [Block.isEmpty, Bool.and_eq_true, decide_eq_true_eq] at he
    have hc : x.common = 0 := by
      unfold Block.common
      rw [he.1, ite_self]
    rw [← Nat.add_zero q, ← hc]
    exact h.2
  · exact h

/-- Equal items join those behind them. -/
theorem putAfter?_eq {o m n q : Nat} {bs : List Block} (h : Floored q (.equal o m n :: bs)) :
    putAfter? (.equal o m n) n bs = some (putAfter (.equal o m n) n bs) ∧
      Floored q (putAfter (.equal o m n) n bs) := by
  obtain ⟨he, hbs⟩ := h
  have hc : (Block.equal o m n).common = n := rfl
  rw [hc] at hbs
  cases bs with
  | nil => exact ⟨rfl, he, trivial⟩
  | cons x bs =>
    simp only [putAfter?, putAfter]
    split
    · rename_i hk
      obtain ⟨hx, hbs⟩ := hbs
      refine ⟨by simp [Block.shiftLeft?_eq hx (Nat.le_add_left n q)], hx.shiftLeft.lengthen, ?_⟩
      have hc : ((x.shiftLeft n).lengthen n).common = n + x.common := by
        simp [Block.common, Block.lengthen, Block.shiftLeft, hk, Nat.add_comm]
      rwa [hc, ← Nat.add_assoc]
    · exact ⟨rfl, he, hbs⟩

/-- Equal items join those before them. -/
theorem floored_putBefore {o m n : Nat} {ps bs : List Block}
    (h : Floored 0 (ps.reverse ++ .equal o m n :: bs)) :
    Floored 0 ((putBefore (.equal o m n) n ps).reverse ++ bs) := by
  cases ps with
  | nil => exact h
  | cons x ps =>
    simp only [putBefore]
    split
    · rename_i hk
      simp only [List.reverse_cons, List.append_assoc, List.singleton_append, floored_append,
        Floored] at h ⊢
      obtain ⟨hps, hx, he, hbs⟩ := h
      have hc : (x.lengthen n).common = x.common + n := by
        simp [Block.common, Block.lengthen, hk]
      refine ⟨hps, hx.lengthen, ?_⟩
      rwa [hc, ← Nat.add_assoc]
    · simpa using h

/-! ## One block -/

/-- A change under way among blocks that are not recorded too early. -/
structure Floating (kind : Kind) (c : Cursor) : Prop where
  floored : Floored 0 (c.before.reverse ++ c.block :: c.after)
  kind : c.block.kind = kind

omit [DecidableEq α] in
theorem length_oldItems_le (l : List α) (x : Block) : (x.oldItems l).length ≤ x.oldLength :=
  List.length_take_le ..

theorem slideUp?_eq (a b : List α) {kind : Kind} (hkind : kind ≠ .equal) (fuel : Nat) :
    ∀ c : Cursor, Floating kind c →
      slideUp? a b fuel c = some (slideUp a b fuel c) ∧ Floating kind (slideUp a b fuel c) := by
  induction fuel with
  | zero => exact fun c h => ⟨rfl, h⟩
  | succ fuel ih =>
    rintro ⟨before, y, after⟩ ⟨hf, rfl⟩
    cases before with
    | nil => exact ⟨rfl, hf, rfl⟩
    | cons x rest =>
      simp only [List.reverse_cons, List.append_assoc, List.singleton_append] at hf
      obtain ⟨hrest, hx, hy, hafter⟩ := (floored_append ..).1 hf
      rw [Block.common_of_change hkind, Nat.add_zero] at hafter
      simp only [slideUp?, slideUp]
      split
      · rename_i hk
        rw [Block.common_of_equal hk] at hy hafter
        split
        · split
          · rename_i he
            simp only [Block.isEmpty, Bool.and_eq_true, decide_eq_true_eq] at he
            rw [he.1, Nat.add_zero] at hy hafter
            refine ih _ ⟨(floored_append ..).2 ⟨hrest, hy, ?_⟩, rfl⟩
            rwa [Block.common_of_change hkind]
          · exact ⟨rfl, by simpa using hf, rfl⟩
        · have hn := (commonSuffix_le (x.oldItems a) (y.newItems b)).1.trans
            (length_oldItems_le a x)
          generalize commonSuffix (x.oldItems a) (y.newItems b) = n at hn ⊢
          generalize hq : 0 + commonTotal rest.reverse = q at hx hy hafter
          -- the block ends up behind `k` equal items less, and before the other `n`
          obtain ⟨k, hk'⟩ : ∃ k, x.oldLength = k + n := ⟨_, (Nat.sub_add_cancel hn).symm⟩
          rw [hk', ← Nat.add_assoc] at hy hafter
          have hox : q + k + n ≤ x.oldEnd := by
            have := hx.old
            unfold Block.oldEnd
            omega
          have hny : q + k + n ≤ y.newEnd := Nat.le_trans hy.new (Nat.le_add_right ..)
          have hequal : Floored (q + k) (.equal (x.oldEnd - n) (y.newEnd - n) n :: after) :=
            ⟨⟨Nat.le_sub_of_add_le hox, Nat.le_sub_of_add_le hny, fun _ => rfl⟩, hafter⟩
          obtain ⟨hput, hputf⟩ := putAfter?_eq hequal
          simp only [Nat.psub_eq_sub (Nat.le_of_add_left_le hox),
            Nat.psub_eq_sub (Nat.le_of_add_left_le hny), hput,
            Block.shiftLeft?_eq hy (Nat.le_add_left ..), Block.dropLast?_eq hx hk hn,
            Option.bind_eq_bind, Option.bind_some]
          refine ih _ ⟨?_, rfl⟩
          simp only
          rw [reverse_keep]
          refine (floored_append ..).2 ⟨hrest, floored_keep ⟨?_, ?_⟩⟩
          · rw [hq]
            exact hx.dropLast
          · rw [hq, Block.common_dropLast hk, hk', Nat.add_sub_cancel]
            refine ⟨hy.shiftLeft, ?_⟩
            rwa [Block.common_shiftLeft, Block.common_of_change hkind]
      · rename_i hk
        rw [Block.common_of_change hk, Nat.add_zero] at hy hafter
        split
        · rename_i hxy
          refine ih _ ⟨(floored_append ..).2 ⟨hrest, hx.lengthen, ?_⟩, ?_⟩
          · rwa [Block.common_of_change (by rwa [kind_lengthen]), Nat.add_zero]
          · exact (kind_lengthen ..).trans hxy
        · refine ih _ ⟨(floored_append ..).2 ⟨hrest, hy, ?_⟩, rfl⟩
          rw [Block.common_of_change hkind, Nat.add_zero]
          refine ⟨hx, ?_⟩
          rwa [Block.common_of_change hk]

theorem slideDown?_eq (a b : List α) {kind : Kind} (hkind : kind ≠ .equal) (fuel : Nat) :
    ∀ c : Cursor, Floating kind c →
      slideDown? a b fuel c = some (slideDown a b fuel c) ∧
        Floating kind (slideDown a b fuel c) := by
  induction fuel with
  | zero => exact fun c h => ⟨rfl, h⟩
  | succ fuel ih =>
    rintro ⟨before, x, after⟩ ⟨hf, rfl⟩
    cases after with
    | nil => exact ⟨rfl, hf, rfl⟩
    | cons y rest =>
      obtain ⟨hbefore, hx, hy, hrest⟩ := (floored_append ..).1 hf
      rw [Block.common_of_change hkind, Nat.add_zero] at hy hrest
      simp only [slideDown?, slideDown]
      split
      · rename_i hk
        rw [Block.common_of_equal hk] at hrest
        split
        · split
          · rename_i he
            simp only [Block.isEmpty, Bool.and_eq_true, decide_eq_true_eq] at he
            rw [he.1, Nat.add_zero] at hrest
            refine ih _ ⟨(floored_append ..).2 ⟨hbefore, hx, ?_⟩, rfl⟩
            rwa [Block.common_of_change hkind]
          · exact ⟨rfl, hf, rfl⟩
        · have hn := (commonPrefix_le (y.oldItems a) (x.newItems b)).1.trans
            (length_oldItems_le a y)
          generalize commonPrefix (y.oldItems a) (x.newItems b) = n at hn ⊢
          simp only [Block.dropLast?_eq hy hk hn, Option.bind_eq_bind, Option.bind_some]
          refine ih _ ⟨floored_putBefore ((floored_append ..).2 ⟨hbefore, ⟨hy.old, hx.new,
            fun _ => rfl⟩, hx.shiftRight, floored_keep ⟨?_, ?_⟩⟩), rfl⟩
          · rw [Block.common_shiftRight, Block.common_of_change hkind]
            exact hy.dropLast.shiftRight
          · rw [Block.common_shiftRight, Block.common_shiftRight, Block.common_of_change hkind,
              Block.common_dropLast hk, Nat.add_zero, Nat.add_assoc]
            rw [← Nat.add_sub_cancel' hn] at hrest
            exact hrest
      · rename_i hk
        rw [Block.common_of_change hk, Nat.add_zero] at hrest
        split
        · refine ih _ ⟨(floored_append ..).2 ⟨hbefore, hx.lengthen, ?_⟩, kind_lengthen ..⟩
          rwa [Block.common_of_change (by rwa [kind_lengthen]), Nat.add_zero]
        · refine ih _ ⟨?_, rfl⟩
          simp only [List.reverse_cons, List.append_assoc, List.singleton_append]
          refine (floored_append ..).2 ⟨hbefore, hy, ?_, ?_⟩
          · rwa [Block.common_of_change hk]
          · rwa [Block.common_of_change hkind, Block.common_of_change hk]

/-! ## All blocks -/

theorem slide?_eq (a b : List α) {kind : Kind} (hkind : kind ≠ .equal) {c : Cursor}
    (h : Floating kind c) :
    slide? a b c = some (slide a b c) ∧ Floating kind (slide a b c) := by
  obtain ⟨hup, hf⟩ := slideUp?_eq a b hkind (weightOf c.before + 1) c h
  simp only [slide?, slide, hup, Option.bind_eq_bind, Option.bind_some]
  exact slideDown?_eq a b hkind _ _ hf

theorem slideAll?_eq (a b : List α) {kind : Kind} (hkind : kind ≠ .equal) (fuel : Nat) :
    ∀ done rest : List Block, Floored 0 (done.reverse ++ rest) →
      slideAll? a b kind fuel done rest = some (slideAll a b kind fuel done rest) ∧
        Floored 0 (slideAll a b kind fuel done rest) := by
  induction fuel with
  | zero => exact fun _ _ h => ⟨rfl, h⟩
  | succ fuel ih =>
    intro done rest h
    cases rest with
    | nil => exact ⟨rfl, by simpa [slideAll] using h⟩
    | cons x rest =>
      simp only [slideAll?, slideAll]
      split
      · rename_i hk
        obtain ⟨hslide, hf⟩ := slide?_eq a b hkind (c := ⟨done, x, rest⟩) ⟨h, hk⟩
        simp only [hslide, Option.bind_eq_bind, Option.bind_some]
        exact ih _ _ (by simpa using hf.floored)
      · exact ih _ _ (by simpa using h)

theorem compact?_eq (a b : List α) {bs : List Block} (h : Floored 0 bs) :
    compact? a b bs = some (compact a b bs) := by
  have hdelete : Kind.delete ≠ .equal := by decide
  have hinsert : Kind.insert ≠ .equal := by decide
  obtain ⟨hslid, hf⟩ := slideAll?_eq a b hdelete (slideBound a b bs) [] bs h
  simp only [compact?, compact, hslid, Option.bind_eq_bind, Option.bind_some]
  exact (slideAll?_eq a b hinsert _ [] _ hf).1

theorem Floored.anti {q r : Nat} {bs : List Block} (h : Floored r bs) (hle : q ≤ r) :
    Floored q bs := by
  induction bs generalizing q r with
  | nil => trivial
  | cons x bs ih =>
    exact ⟨⟨Nat.le_trans hle h.1.old, Nat.le_trans hle h.1.new, h.1.lengths⟩,
      ih h.2 (Nat.add_le_add_right hle _)⟩

theorem Floored.append {q m : Nat} {bs cs : List Block} (h : Floored q bs)
    (hm : commonTotal bs ≤ m) (h' : Floored (q + m) cs) : Floored q (bs ++ cs) :=
  (floored_append ..).2 ⟨h, h'.anti (Nat.add_le_add_left hm q)⟩

theorem floored_equal {q i j : Nat} (hi : q ≤ i) (hj : q ≤ j) (k : Nat) :
    Floored q (if k = 0 then [] else [.equal i j k]) ∧
      commonTotal (if k = 0 then [] else [.equal i j k]) = k := by
  split
  · rename_i hk
    exact ⟨trivial, hk.symm⟩
  · exact ⟨⟨⟨hi, hj, fun _ => rfl⟩, trivial⟩, rfl⟩

/-- Blocks of two stretches, between `p` equal items before them and `s` equal items behind. -/
theorem floored_frame {q i j p s m m' : Nat} {body : List Block} (hi : q ≤ i) (hj : q ≤ j)
    (h : Floored (q + p) body ∧ commonTotal body ≤ min m m') :
    Floored q ((if p = 0 then [] else [.equal i j p]) ++ body ++
        (if s = 0 then [] else [.equal (i + p + m) (j + p + m') s])) ∧
      commonTotal ((if p = 0 then [] else [.equal i j p]) ++ body ++
        (if s = 0 then [] else [.equal (i + p + m) (j + p + m') s])) ≤
          min (m + p + s) (m' + p + s) := by
  obtain ⟨hf, hc⟩ := h
  obtain ⟨head, hhead⟩ := floored_equal hi hj p
  have hi' : q + p + min m m' ≤ i + p + m := by omega
  have hj' : q + p + min m m' ≤ j + p + m' := by omega
  obtain ⟨tail, htail⟩ := floored_equal hi' hj' s
  refine ⟨(head.append hhead.le hf).append ?_ (by rwa [← Nat.add_assoc]), ?_⟩
  · rw [commonTotal_append, hhead]
    exact Nat.add_le_add_left hc p
  · rw [commonTotal_append, commonTotal_append, hhead, htail]
    omega

/-- The blocks of a script are recorded where they are. -/
theorem floored_conquer (fuel : Nat) :
    ∀ (a b : List α) {i j q : Nat}, q ≤ i → q ≤ j →
      Floored q (conquer fuel a b i j) ∧
        commonTotal (conquer fuel a b i j) ≤ min a.length b.length := by
  induction fuel with
  | zero =>
    intro a b i j q hi hj
    refine ⟨⟨⟨hi, hj, nofun⟩, ⟨?_, hj, nofun⟩, trivial⟩, Nat.zero_le _⟩
    exact Nat.le_trans hi (Nat.le_add_right ..)
  | succ fuel ih =>
    intro a b i j q hi hj
    have hp := commonPrefix_le a b
    have hs := commonSuffix_le (a.drop (commonPrefix a b)) (b.drop (commonPrefix a b))
    unfold conquer
    simp only [Nat.add_sub_cancel]
    generalize commonPrefix a b = p at hp hs ⊢
    generalize commonSuffix (a.drop p) (b.drop p) = s at hs ⊢
    have hm : ((a.drop p).take ((a.drop p).length - s)).length + p + s = a.length := by
      simp only [List.length_take, List.length_drop] at hs ⊢
      omega
    have hm' : ((b.drop p).take ((b.drop p).length - s)).length + p + s = b.length := by
      simp only [List.length_take, List.length_drop] at hs ⊢
      omega
    generalize (a.drop p).take ((a.drop p).length - s) = m at hm ⊢
    generalize (b.drop p).take ((b.drop p).length - s) = m' at hm' ⊢
    have hi' : q + p ≤ i + p := Nat.add_le_add_right hi p
    have hj' : q + p ≤ j + p := Nat.add_le_add_right hj p
    rw [← hm, ← hm']
    refine floored_frame hi hj ?_
    split
    · split
      · exact ⟨trivial, Nat.zero_le _⟩
      · exact ⟨⟨⟨hi', hj', nofun⟩, trivial⟩, Nat.zero_le _⟩
    split
    · exact ⟨⟨⟨hi', hj', nofun⟩, trivial⟩, Nat.zero_le _⟩
    split
    · rename_i x y _
      obtain ⟨hbefore, hcb⟩ := ih (m.take x) (m'.take y) hi' hj'
      obtain ⟨hafter, hca⟩ := ih (m.drop x) (m'.drop y) (i := i + p + x) (j := j + p + y)
        (q := q + p + min (m.take x).length (m'.take y).length)
        (by rw [List.length_take]; omega) (by simp only [List.length_take]; omega)
      refine ⟨hbefore.append hcb hafter, ?_⟩
      rw [commonTotal_append]
      simp only [List.length_take, List.length_drop] at hcb hca
      omega
    · exact ⟨⟨⟨hi', hj', nofun⟩, ⟨Nat.le_trans hi' (Nat.le_add_right ..), hj', nofun⟩, trivial⟩,
        Nat.zero_le _⟩

/-- **Compaction.** In the script of two sequences nothing is slid below zero. -/
theorem compact?_script (a b : List α) :
    compact? a b (script a b) = some (compact a b (script a b)) :=
  compact?_eq a b (floored_conquer _ a b (Nat.le_refl 0) (Nat.le_refl 0)).1

end LanguageClient.Diff
