import Mathlib
import LanguageClient.Position
import LanguageClient.Proofs.Text.Terminators

/-!
# Positions and places

A position stands behind what a text starts with if it counts the terminators
there and the columns behind the last of them (`Position.Stands`). It resolves
in a text exactly if it stands behind something the text starts with and does
not part a terminator there (`Position.split?_eq_some`). As what stands before
a place grows, so does its position, by lines or along the last one.

* `Position.compare_offset`: positions are ordered as their offsets are.
* `Position.exists_stands`: every place has its position, unless it is inside
  a terminator or too far away to be counted.
-/
namespace LanguageClient

namespace Line

theorem unbroken_content (s : List Char) : Unbroken (content s) := by
  intro c hc
  simpa using List.mem_takeWhile_imp hc

theorem content_append_drop (s : List Char) : content s ++ s.drop (content s).length = s :=
  List.prefix_iff_eq_append.1 (List.takeWhile_prefix _)

theorem content_append {u : List Char} (h : Unbroken u) (y : List Char) :
    content (u ++ y) = u ++ content y :=
  List.takeWhile_append_of_pos fun c hc => by simp [h c hc]

/-- Every text is what stands up to its last terminator, and something behind it. -/
theorem exists_ended (x : List Char) :
    ∃ lines, x = lines ++ tail x ∧ breaks lines = breaks x ∧ tail lines = [] := by
  have hx := rdropWhile_append_tail x
  have htail := tail_append_unbroken (x.rdropWhile fun c => !isBreak c) (unbroken_tail x)
  have hbreaks := breaks_append ((unbroken_tail x).not_parts_right
    (x.rdropWhile fun c => !isBreak c))
  rw [hx] at htail hbreaks
  rw [breaks_eq_zero.2 (unbroken_tail x), Nat.add_zero] at hbreaks
  exact ⟨_, hx.symm, hbreaks.symm, List.self_eq_append_left.1 htail⟩

variable {s x y l : List Char}

/-- The line that a place is on starts behind the last terminator before it. -/
theorem splitAt?_breaks (h : ¬Parts x y) :
    ∃ lines, x = lines ++ tail x ∧ splitAt? (breaks x) (x ++ y) = some (lines, tail x ++ y) := by
  obtain ⟨lines, hx, hbreaks, htail⟩ := exists_ended x
  have hlines : ¬Parts lines (tail x ++ y) := by
    by_cases hnil : tail x = []
    · rw [hnil, List.append_nil] at hx
      rwa [hnil, List.nil_append, ← hx]
    · rw [parts_append_right hnil]
      exact (unbroken_tail x).not_parts_right lines
  have htext : x ++ y = lines ++ (tail x ++ y) := by rw [← List.append_assoc, ← hx]
  exact ⟨lines, hx, splitAt?_eq_some.2 ⟨htext, hlines, hbreaks, htail⟩⟩

theorem at?_breaks (h : ¬Parts x y) : at? (x ++ y) (breaks x) = some (tail x ++ content y) := by
  obtain ⟨lines, -, hcut⟩ := splitAt?_breaks h
  rw [at?_eq, hcut]
  exact congrArg some (content_append (unbroken_tail x) y)

theorem of_at? {n : Nat} (h : at? s n = some l) : l = [] ∨ ∃ line ∈ split s, content line = l := by
  unfold at? at h
  split at h
  · exact .inl (Option.some.inj h).symm
  · obtain ⟨line, hline, hl⟩ := Option.map_eq_some_iff.1 h
    exact .inr ⟨line, List.mem_of_getElem? hline, hl⟩

/-- What stands behind the last terminator before a place is in one of the lines. -/
theorem length_tail_le (h : ¬Parts x y) : tail x = [] ∨
    ∃ line ∈ split (x ++ y), Utf16.length (tail x) ≤ Utf16.length (content line) := by
  rcases of_at? (at?_breaks h) with hnil | ⟨line, hline, hl⟩
  · exact .inl (List.append_eq_nil_iff.1 hnil).1
  · exact .inr ⟨line, hline, by rw [hl, Utf16.length_append]; exact Nat.le_add_right _ _⟩

/-- What a text starts with has no more terminators than the text has lines. -/
theorem breaks_le_length_split (h : ¬Parts x y) : breaks x ≤ (split (x ++ y)).length := by
  rw [length_split, breaks_append h]
  omega

end Line

open Line (Parts breaks tail Unbroken)

namespace Position

variable {text x y z : List Char} {p q : Position} {m n : Nat}

/-! ## Where a position stands -/

/-- A position stands behind a text: on the line behind its terminators, and there at the column
behind what follows them. -/
structure Stands (p : Position) (x : List Char) : Prop where
  line : p.line.toNat = breaks x
  character : p.character.toNat = Utf16.length (tail x)

/-- A position cuts a text where it stands. -/
theorem split?_eq_some : p.split? text = some (x, y) ↔
    text = x ++ y ∧ ¬Parts x y ∧ p.Stands x := by
  constructor
  · intro h
    simp only [split?, Option.bind_eq_bind, Option.bind_eq_some_iff, Option.some.injEq,
      Prod.exists, Prod.mk.injEq] at h
    obtain ⟨lines, rest, hlines, before, after, hcolumn, rfl, rfl⟩ := h
    obtain ⟨rfl, hparts, hbreaks, htail⟩ := Line.splitAt?_eq_some.1 hlines
    obtain ⟨hcontent, hunits⟩ := Utf16.split?_eq_some.1 hcolumn
    have hbefore : Unbroken before := by
      have := Line.unbroken_content rest
      rw [hcontent] at this
      exact this.of_append
    have hrest : before ++ (after ++ rest.drop (Line.content rest).length) = rest := by
      rw [← List.append_assoc, ← hcontent, Line.content_append_drop]
    refine ⟨by rw [List.append_assoc, hrest], ?_, ?_, ?_⟩
    · by_cases hnil : before = []
      · subst hnil
        rw [List.nil_append] at hrest
        rwa [List.append_nil, hrest]
      · rw [Line.parts_append_left _ hnil]
        exact hbefore.not_parts_left _
    · rw [Line.breaks_append (hbefore.not_parts_right lines), Line.breaks_eq_zero.2 hbefore,
        hbreaks, Nat.add_zero]
    · rw [Line.tail_append_unbroken lines hbefore, htail, List.nil_append, hunits]
  · rintro ⟨rfl, hparts, hline, hcharacter⟩
    obtain ⟨lines, hx, hcut⟩ := Line.splitAt?_breaks hparts
    rw [← hline] at hcut
    have hcontent := Line.content_append (Line.unbroken_tail x) y
    have hcolumn : Utf16.split? (Line.content (tail x ++ y)) p.character.toNat =
        some (tail x, Line.content y) := Utf16.split?_eq_some.2 ⟨hcontent, hcharacter.symm⟩
    have hrest : Line.content y ++ (tail x ++ y).drop (Line.content (tail x ++ y)).length = y := by
      rw [hcontent, List.length_append, ← List.drop_drop, List.drop_left,
        Line.content_append_drop]
    simp only [split?, hcut, hcolumn, hrest, ← hx, Option.bind_eq_bind, Option.bind_some]

theorem offset?_eq_some : p.offset? text = some n ↔
    ∃ x y, text = x ++ y ∧ ¬Parts x y ∧ p.Stands x ∧ Utf8.byteLength x = n := by
  simp only [offset?, Option.bind_eq_bind, Option.bind_eq_some_iff, Prod.exists, split?_eq_some,
    Option.some.injEq, and_assoc]

/-- A position resolves if the walk comes to its line and the column is between two characters of
it. -/
theorem offset?_eq_walk (p : Position) (text : List Char) : p.offset? text =
    (Line.splitAt? p.line.toNat text).bind fun (lines, rest) =>
      (Utf16.split? (Line.content rest) p.character.toNat).map fun (before, _) =>
        Utf8.byteLength (lines ++ before) := by
  simp only [offset?, split?, Option.bind_eq_bind]
  cases Line.splitAt? p.line.toNat text with
  | none => rfl
  | some cut =>
    cases hcut : Utf16.split? (Line.content cut.2) p.character.toNat <;> simp [hcut]

/-! ## Order -/

theorem Stands.eq (hp : p.Stands x) (hq : q.Stands x) : p = q := by
  have hline : p.line = q.line := UInt32.toNat_inj.1 (hp.line.trans hq.line.symm)
  have hcharacter : p.character = q.character :=
    UInt32.toNat_inj.1 (hp.character.trans hq.character.symm)
  cases p
  cases q
  simp_all

theorem compare_self (p : Position) : p.compare p = .eq := by
  rw [Position.compare, Std.compare_self, Std.compare_self]
  rfl

theorem compare_swap (p q : Position) : (p.compare q).swap = q.compare p := by
  rw [Position.compare, Position.compare, Ordering.swap_then, ← Std.OrientedOrd.eq_swap,
    ← Std.OrientedOrd.eq_swap]

theorem compare_of_line_lt (h : p.line.toNat < q.line.toNat) : p.compare q = .lt := by
  rw [Position.compare, Std.compare_eq_lt.2 (UInt32.lt_iff_toNat_lt.2 h)]
  rfl

theorem compare_of_line_eq (hline : p.line.toNat = q.line.toNat)
    (h : p.character.toNat < q.character.toNat) : p.compare q = .lt := by
  rw [Position.compare, UInt32.toNat_inj.1 hline, Std.compare_self,
    Std.compare_eq_lt.2 (UInt32.lt_iff_toNat_lt.2 h)]
  rfl

/-- What is added to a text moves the position behind it forward: to a further line if a line ends
in it, and else along the same one. -/
theorem Stands.compare_append (hp : p.Stands x) (hq : q.Stands (x ++ z)) (hparts : ¬Parts x z)
    (hz : z ≠ []) : p.compare q = .lt := by
  have hline := hq.line
  rw [Line.breaks_append hparts, ← hp.line] at hline
  by_cases hopen : Unbroken z
  · rw [Line.breaks_eq_zero.2 hopen] at hline
    refine compare_of_line_eq hline.symm ?_
    rw [hq.character, Line.tail_append_unbroken x hopen, Utf16.length_append, hp.character]
    exact Nat.lt_add_of_pos_right (Utf16.length_pos hz)
  · have hbreaks : breaks z ≠ 0 := fun h => hopen (Line.breaks_eq_zero.1 h)
    exact compare_of_line_lt (by omega)

theorem compare_of_offset_lt (hp : p.offset? text = some m) (hq : q.offset? text = some n)
    (h : m < n) : p.compare q = .lt := by
  obtain ⟨x, y, rfl, hx, hpx, rfl⟩ := offset?_eq_some.1 hp
  obtain ⟨x', y', he, -, hqx, rfl⟩ := offset?_eq_some.1 hq
  rcases List.append_eq_append_iff.1 he with ⟨z, rfl, rfl⟩ | ⟨z, rfl, rfl⟩
  · have hz : z ≠ [] := by
      rintro rfl
      simp at h
    exact hpx.compare_append hqx (Line.not_parts_of_append_right hx) hz
  · rw [Utf8.byteLength_append] at h
    omega

theorem offset_inj (hp : p.offset? text = some n) (hq : q.offset? text = some n) : p = q := by
  obtain ⟨x, y, rfl, -, hpx, hx⟩ := offset?_eq_some.1 hp
  obtain ⟨x', y', he, -, hqx, hx'⟩ := offset?_eq_some.1 hq
  obtain ⟨rfl, -⟩ := Utf8.append_inj he (hx.trans hx'.symm)
  exact hpx.eq hqx

/-- Positions are ordered as their offsets are. -/
theorem compare_offset (hp : p.offset? text = some m) (hq : q.offset? text = some n) :
    p.compare q = Ord.compare m n := by
  rcases Nat.lt_trichotomy m n with h | rfl | h
  · rw [compare_of_offset_lt hp hq h, Std.compare_eq_lt.2 h]
  · rw [offset_inj hp hq, compare_self, Std.compare_self]
  · rw [← compare_swap, compare_of_offset_lt hq hp h, Std.compare_eq_gt.2 h]
    rfl

/-! ## Every place has a position -/

theorem stands_ofNat (hline : breaks x < 2 ^ 32) (hcharacter : Utf16.length (tail x) < 2 ^ 32) :
    Stands ⟨UInt32.ofNat (breaks x), UInt32.ofNat (Utf16.length (tail x))⟩ x :=
  ⟨UInt32.toNat_ofNat_of_lt' hline, UInt32.toNat_ofNat_of_lt' hcharacter⟩

/-- A place that is not inside a terminator has a position, if lines and columns can be counted. -/
theorem exists_stands (hparts : ¬Parts x y) (hlines : (Line.split (x ++ y)).length < 2 ^ 32)
    (hcolumns : ∀ line ∈ Line.split (x ++ y), Utf16.length (Line.content line) < 2 ^ 32) :
    ∃ p : Position, p.Stands x := by
  refine ⟨_, stands_ofNat (Nat.lt_of_le_of_lt (Line.breaks_le_length_split hparts) hlines) ?_⟩
  rcases Line.length_tail_le hparts with h | ⟨line, hline, h⟩
  · rw [h]
    decide
  · exact Nat.lt_of_le_of_lt h (hcolumns line hline)

end Position

end LanguageClient
