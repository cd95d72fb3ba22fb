import Mathlib
import LanguageClient.Proofs.Text.Positions

/-!
# Where a text ends

`Position.after` reads the end of a text off its lines: their number, and how
long the last is if nothing ends it. It so counts the terminators of the text
and the columns behind the last of them (`Position.after_eq`), which add up
with what stands before the text as long as no terminator is parted between
the two (`Position.Stands.after`).
-/
namespace LanguageClient

namespace Line

variable {s : List Char}

theorem isTerminated_of_unbroken (h : Unbroken s) : isTerminated s = false := by
  simp [isTerminated, content_open h]

theorem Leads.isTerminated_eq {b t r : List Char} (h : Leads b t r) :
    isTerminated (b ++ t) = true := by
  simpa [isTerminated, h.content_line] using List.length_pos_iff.2 h.terminator.ne_nil

/-- The last line of a text is what stands behind its last terminator, or else it is terminated. -/
theorem getLast?_split (h : s ≠ []) : ∃ last, (split s).getLast? = some last ∧
    (isTerminated last = true ↔ tail s = []) ∧ (tail s ≠ [] → last = tail s) := by
  induction s using lineInduction with
  | last s hs =>
    refine ⟨s, by rw [hs.split_eq h]; rfl, ?_, fun _ => hs.tail_eq.symm⟩
    rw [isTerminated_of_unbroken hs, hs.tail_eq]
    simp [h]
  | line b t r hl ih =>
    rw [hl.split_eq, hl.tail_eq]
    by_cases hr : r = []
    · subst hr
      exact ⟨b ++ t, rfl, by simp [hl.isTerminated_eq, tail], by simp [tail]⟩
    · obtain ⟨last, hlast, hr⟩ := ih hr
      exact ⟨last, by rw [List.getLast?_cons, hlast]; rfl, hr⟩

end Line

open Line (Parts breaks tail)

namespace Position

variable {p : Position} {x t : List Char} {c : Char}

/-- The terminators of the text are added to the line. The columns behind the last of them are
added to the column, or take its place if there is a terminator. -/
theorem after_eq (p : Position) (t : List Char) : p.after t =
    ⟨p.line + UInt32.ofNat (breaks t),
      (if breaks t = 0 then p.character else 0) + UInt32.ofNat (Utf16.length (tail t))⟩ := by
  by_cases ht : t = []
  · subst ht
    simp [after, Line.split, breaks, tail]
  · obtain ⟨last, hlast, hended, htail⟩ := Line.getLast?_split ht
    have hlength := Line.length_split t
    have hne : Line.split t ≠ [] := fun he => by simp [he] at hlast
    have hbreaks : (if Line.isTerminated last = true then (Line.split t).length
        else (Line.split t).length - 1) = breaks t := by
      simp only [hended, hlength]
      split <;> omega
    have hrest : (if Line.isTerminated last = true then [] else last) = tail t := by
      simp only [hended]
      split
      · next h => exact h.symm
      · next h => exact htail h
    cases hsplit : Line.split t with
    | nil => exact absurd hsplit hne
    | cons line lines =>
      simp only [after, hsplit]
      rw [← hsplit, hlast, Option.getD_some, hbreaks, hrest]
      split
      · next h => simp [h]
      · simp

/-- There is a position where a text written at `p` ends. -/
structure Fits (p : Position) (t : List Char) : Prop where
  line : p.line.toNat + breaks t < 2 ^ 32
  character : (if breaks t = 0 then p.character.toNat else 0) + Utf16.length (tail t) < 2 ^ 32

theorem Fits.toNat_line (h : p.Fits t) : (p.after t).line.toNat = p.line.toNat + breaks t := by
  rw [after_eq, UInt32.toNat_add, UInt32.toNat_ofNat', Nat.add_mod_mod, Nat.mod_eq_of_lt h.line]

theorem Fits.toNat_character (h : p.Fits t) : (p.after t).character.toNat =
    (if breaks t = 0 then p.character.toNat else 0) + Utf16.length (tail t) := by
  have hcolumn : (if breaks t = 0 then p.character else 0).toNat =
      if breaks t = 0 then p.character.toNat else 0 := apply_ite UInt32.toNat _ _ _
  rw [after_eq, UInt32.toNat_add, UInt32.toNat_ofNat', hcolumn, Nat.add_mod_mod,
    Nat.mod_eq_of_lt h.character]

/-- The position behind a text that is written behind another. -/
theorem Stands.after (h : p.Stands x) (hparts : ¬Parts x t) (hfits : p.Fits t) :
    (p.after t).Stands (x ++ t) := by
  constructor
  · rw [hfits.toNat_line, h.line, Line.breaks_append hparts]
  · rw [hfits.toNat_character]
    by_cases ht : Line.Unbroken t
    · rw [if_pos (Line.breaks_eq_zero.2 ht), Line.tail_append_unbroken x ht, Utf16.length_append,
        h.character, ht.tail_eq]
    · rw [if_neg (mt Line.breaks_eq_zero.1 ht), Line.tail_append_broken x ht, Nat.zero_add]

/-- The position before the character that a text ends in, if that takes one column. -/
theorem Stands.pred (h : p.Stands (x ++ [c])) (hc : Line.isBreak c = false)
    (hone : Utf16.charLength c = 1) : Stands { p with character := p.character - 1 } x := by
  have hopen : Line.Unbroken [c] := by simpa [Line.Unbroken] using hc
  have hline := h.line
  have hcharacter := h.character
  rw [Line.breaks_append (hopen.not_parts_right x), Line.breaks_eq_zero.2 hopen] at hline
  rw [Line.tail_append_unbroken x hopen, Utf16.length_append, Utf16.length_cons, hone] at hcharacter
  have hle : (1 : UInt32) ≤ p.character := by
    rw [UInt32.le_iff_toNat_le, hcharacter]
    simp
  refine ⟨hline, ?_⟩
  rw [UInt32.toNat_sub_of_le _ _ hle, hcharacter]
  simp

end Position

end LanguageClient
