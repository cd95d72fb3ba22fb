import Mathlib
import LanguageClient.Diff.Merge
import LanguageClient.Proofs.Diff.Distance

/-!
# Blocks that lie side by side

The blocks of a comparison take the items of both sequences one after
another (`Tiles`). Where a deletion is recorded in the new sequence is no
part of this: sliding leaves it as it is, and `InPlace` says when it is right.

* `edits_of_tiles`: blocks that lie side by side are edits.
* `disjoint_of_shortest`: in a shortest comparison, what goes and what comes
  between two blocks of equal items has no item in common.
-/
namespace LanguageClient.Diff

variable {α : Type}

/-- How many items of the old sequence some blocks take. -/
def oldTotal (bs : List Block) : Nat :=
  (bs.map Block.oldLength).sum

def newTotal (bs : List Block) : Nat :=
  (bs.map Block.newLength).sum

/-- How many items are deleted and inserted. -/
def cost : List Block → Nat
  | [] => 0
  | x :: bs => (if x.kind = .equal then 0 else x.oldLength + x.newLength) + cost bs

/-- A block of equal items, a deletion or an insertion that takes something, and takes it from item
`o` of the old sequence and item `n` of the new one on. -/
def Fits (a b : List α) (o n : Nat) (x : Block) : Prop :=
  match x.kind with
  | .equal => x.oldStart = o ∧ x.newStart = n ∧ x.newLength = x.oldLength ∧
      x.oldItems a = x.newItems b ∧ 0 < x.oldLength
  | .delete => x.oldStart = o ∧ x.newLength = 0 ∧ 0 < x.oldLength
  | .insert => x.newStart = n ∧ x.oldLength = 0 ∧ 0 < x.newLength
  | .replace => False

/-- Blocks that take the items of both sequences one after another, from `o` and `n` on. -/
def Tiles (a b : List α) : Nat → Nat → List Block → Prop
  | _, _, [] => True
  | o, n, x :: bs => Fits a b o n x ∧ Tiles a b (o + x.oldLength) (n + x.newLength) bs

/-- Whether every deletion is recorded at the item of the new sequence it lies before, the first
block lying before item `n`. -/
def InPlace : Nat → List Block → Prop
  | _, [] => True
  | n, x :: bs => (x.kind = .delete → x.newStart = n) ∧ InPlace (n + x.newLength) bs

instance decidableInPlace : ∀ n bs, Decidable (InPlace n bs)
  | _, [] => .isTrue trivial
  | n, x :: bs =>
    have := decidableInPlace (n + x.newLength) bs
    inferInstanceAs (Decidable ((x.kind = .delete → x.newStart = n) ∧ _))

/-! ## Several blocks -/

@[simp] theorem oldTotal_nil : oldTotal [] = 0 := rfl

@[simp] theorem oldTotal_cons (x : Block) (bs : List Block) :
    oldTotal (x :: bs) = x.oldLength + oldTotal bs := by
  simp [oldTotal]

@[simp] theorem oldTotal_append (bs cs : List Block) :
    oldTotal (bs ++ cs) = oldTotal bs + oldTotal cs := by
  simp [oldTotal]

@[simp] theorem newTotal_nil : newTotal [] = 0 := rfl

@[simp] theorem newTotal_cons (x : Block) (bs : List Block) :
    newTotal (x :: bs) = x.newLength + newTotal bs := by
  simp [newTotal]

@[simp] theorem newTotal_append (bs cs : List Block) :
    newTotal (bs ++ cs) = newTotal bs + newTotal cs := by
  simp [newTotal]

@[simp] theorem cost_append (bs cs : List Block) : cost (bs ++ cs) = cost bs + cost cs := by
  induction bs with
  | nil => simp [cost]
  | cons x bs ih => simp [cost, ih, Nat.add_assoc]

theorem tiles_append (a b : List α) {o n : Nat} (bs cs : List Block) :
    Tiles a b o n (bs ++ cs) ↔
      Tiles a b o n bs ∧ Tiles a b (o + oldTotal bs) (n + newTotal bs) cs := by
  induction bs generalizing o n with
  | nil => simp [Tiles]
  | cons x bs ih => simp [Tiles, ih, and_assoc, Nat.add_assoc]

theorem inPlace_append {n : Nat} (bs cs : List Block) :
    InPlace n (bs ++ cs) ↔ InPlace n bs ∧ InPlace (n + newTotal bs) cs := by
  induction bs generalizing n with
  | nil => simp [InPlace]
  | cons x bs ih => simp [InPlace, ih, and_assoc, Nat.add_assoc]

/-! ## Edits -/

/-- The items of a sequence from item `i` on, `n` of them. -/
def stretch (c : List α) (i n : Nat) : List α :=
  (c.drop i).take n

theorem stretch_add (c : List α) (i m n : Nat) :
    stretch c i (m + n) = stretch c i m ++ stretch c (i + m) n := by
  rw [stretch, List.take_add, List.drop_drop]
  rfl

theorem stretch_append_drop (c : List α) (i k : Nat) :
    stretch c i k ++ c.drop (i + k) = c.drop i := by
  rw [stretch, ← List.drop_drop, List.take_append_drop]

theorem length_stretch {c : List α} {i n : Nat} (h : i + n ≤ c.length) :
    (stretch c i n).length = n := by
  simp only [stretch, List.length_take, List.length_drop]
  omega

theorem stretch_all (c : List α) : stretch c 0 c.length = c := by
  simp [stretch]

variable {a b : List α} {o n : Nat}

theorem Tiles.kind_ne_replace {x : Block} {bs : List Block} (h : Tiles a b o n bs) (hx : x ∈ bs) :
    x.kind ≠ .replace := by
  induction bs generalizing o n with
  | nil => cases hx
  | cons y bs ih =>
    rcases List.mem_cons.1 hx with rfl | hx
    · intro hk
      simpa [Fits, hk] using h.1
    · exact ih h.2 hx

/-- Blocks that lie side by side turn what they take of the old sequence into what they take of the
new one. -/
theorem edits_of_tiles {bs : List Block} (h : Tiles a b o n bs)
    (ho : o + oldTotal bs ≤ a.length) (hn : n + newTotal bs ≤ b.length) :
    Edits (stretch a o (oldTotal bs)) (stretch b n (newTotal bs)) (cost bs) := by
  induction bs generalizing o n with
  | nil => simpa [stretch, cost] using Edits.nil
  | cons x bs ih =>
    obtain ⟨hx, hbs⟩ := h
    simp only [oldTotal_cons, newTotal_cons] at ho hn ⊢
    have ih' := ih hbs (by omega) (by omega)
    rw [stretch_add, stretch_add, cost]
    refine Edits.append ?_ ih'
    have hol := length_stretch (c := a) (i := o) (n := x.oldLength) (by omega)
    have hnl := length_stretch (c := b) (i := n) (n := x.newLength) (by omega)
    have hchange := Edits.exchangeAll (stretch a o x.oldLength) (stretch b n x.newLength)
    rw [hol, hnl] at hchange
    split
    · rename_i hk
      simp only [Fits, hk] at hx
      obtain ⟨rfl, rfl, -, hitems, -⟩ := hx
      rw [show stretch a x.oldStart x.oldLength = stretch b x.newStart x.newLength from hitems]
      exact .refl _
    · exact hchange

theorem cost_of_changes {bs : List Block} (h : ∀ x ∈ bs, x.kind ≠ .equal) :
    cost bs = oldTotal bs + newTotal bs := by
  induction bs with
  | nil => rfl
  | cons x bs ih =>
    have hx : x.kind ≠ .equal := h x (List.mem_cons_self ..)
    rw [cost, if_neg hx, ih fun y hy => h y (List.mem_cons_of_mem _ hy), oldTotal_cons,
      newTotal_cons]
    omega

/-- Sequences with an item in common need not be exchanged as a whole. -/
theorem exists_edits_of_mem {c d : List α} {z : α} (hc : z ∈ c) (hd : z ∈ d) :
    ∃ e, Edits c d e ∧ e + 2 ≤ c.length + d.length := by
  obtain ⟨c₁, c₂, rfl⟩ := List.append_of_mem hc
  obtain ⟨d₁, d₂, rfl⟩ := List.append_of_mem hd
  refine ⟨_, (Edits.exchangeAll c₁ d₁).append (.keep z (.exchangeAll c₂ d₂)), ?_⟩
  simp only [List.length_append, List.length_cons]
  omega

/-- Blocks that lie side by side, from end to end of both sequences. -/
structure Covers (a b : List α) (bs : List Block) : Prop where
  tiles : Tiles a b 0 0 bs
  old : oldTotal bs = a.length
  new : newTotal bs = b.length

/-- In a shortest comparison, what goes and what comes between two blocks of equal items has no
item in common. -/
theorem disjoint_of_shortest [DecidableEq α] {p m q : List Block} (h : Covers a b (p ++ m ++ q))
    (hs : cost (p ++ m ++ q) = dist a b) (hm : ∀ x ∈ m, x.kind ≠ .equal) {z : α}
    (hz : z ∈ stretch a (oldTotal p) (oldTotal m)) :
    z ∉ stretch b (newTotal p) (newTotal m) := by
  intro hz'
  obtain ⟨ht, ho, hn⟩ := h
  simp only [oldTotal_append, newTotal_append, cost_append, tiles_append,
    Nat.zero_add] at ht ho hn hs
  obtain ⟨⟨hp, -⟩, hq⟩ := ht
  obtain ⟨e, he, hle⟩ := exists_edits_of_mem hz hz'
  rw [length_stretch (by omega), length_stretch (by omega)] at hle
  have hshort := dist_le (((edits_of_tiles hp (by omega) (by omega)).append he).append
    (edits_of_tiles hq (by omega) (by omega)))
  have ha := stretch_all a
  have hb := stretch_all b
  rw [← ho, stretch_add, stretch_add, Nat.zero_add, Nat.zero_add] at ha
  rw [← hn, stretch_add, stretch_add, Nat.zero_add, Nat.zero_add] at hb
  rw [ha, hb] at hshort
  have := cost_of_changes hm
  omega

end LanguageClient.Diff
