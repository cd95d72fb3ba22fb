import Mathlib
import LanguageClient.Completion.Words

/-!
# The word at a caret

A text is its stem and the word it ends in. What is typed or erased of that
word leaves the stem alone, so two texts with one stem differ in their last
words only. The two parts of a word around a caret make a run (`IsRun`):
nothing that could stand in a word is next to it.
-/
namespace LanguageClient.WordSet

variable {w : WordSet} {s t : List Char}

/-- A text without the part of a word that it ends in. -/
def stem (w : WordSet) (s : List Char) : List Char :=
  s.rdrop (w.before s).length

/-- What stands between `x` and `y` has only characters of words, and the ones next to it are
none. -/
structure IsRun (w : WordSet) (x run y : List Char) : Prop where
  word : w.allWord run = true
  left : ∀ c ∈ x.getLast?, w.isWord c = false
  right : ∀ c ∈ y.head?, w.isWord c = false

theorem before_eq (w : WordSet) (s : List Char) : w.before s = s.rtakeWhile w.isWord :=
  rfl

theorem stem_eq (w : WordSet) (s : List Char) : w.stem s = s.rdropWhile w.isWord := by
  have hlength := congrArg List.length (List.rdropWhile_append_rtakeWhile (p := w.isWord) (l := s))
  rw [List.length_append] at hlength
  have htake := List.prefix_iff_eq_take.1 (List.rdropWhile_prefix w.isWord s)
  rw [stem, before_eq, List.rdrop, ← hlength, Nat.add_sub_cancel]
  exact htake.symm

theorem stem_append_before (w : WordSet) (s : List Char) : w.stem s ++ w.before s = s := by
  rw [stem_eq, before_eq, List.rdropWhile_append_rtakeWhile]

theorem after_append_dropWhile (w : WordSet) (s : List Char) :
    w.after s ++ s.dropWhile w.isWord = s :=
  List.takeWhile_append_dropWhile

theorem allWord_before (w : WordSet) (s : List Char) : w.allWord (w.before s) = true :=
  List.all_eq_true.2 fun _ hc => List.mem_rtakeWhile_imp hc

theorem allWord_after (w : WordSet) (s : List Char) : w.allWord (w.after s) = true :=
  List.all_eq_true.2 fun _ hc => List.mem_takeWhile_imp hc

theorem before_append (s : List Char) (h : w.allWord t = true) :
    w.before (s ++ t) = w.before s ++ t := by
  have ht : ∀ c ∈ t.reverse, w.isWord c = true := fun c hc =>
    List.all_eq_true.1 h c (List.mem_reverse.1 hc)
  simp only [before, List.reverse_append, List.takeWhile_append_of_pos ht, List.reverse_reverse]

theorem stem_append (s : List Char) (h : w.allWord t = true) : w.stem (s ++ t) = w.stem s := by
  have hs := stem_append_before w (s ++ t)
  rw [before_append s h, ← List.append_assoc, List.append_cancel_right_eq] at hs
  exact List.append_cancel_right (hs.trans (stem_append_before w s).symm)

/-- Something of words is typed behind a text exactly if the word it ends in goes on. -/
theorem exists_typed_iff : (∃ typed, t = s ++ typed ∧ w.allWord typed = true) ↔
    w.stem s = w.stem t ∧ w.before s <+: w.before t := by
  constructor
  · rintro ⟨typed, rfl, h⟩
    exact ⟨(stem_append s h).symm, typed, (before_append s h).symm⟩
  · rintro ⟨hstem, typed, hbefore⟩
    have hword := allWord_before w t
    rw [← hbefore, allWord, List.all_append, Bool.and_eq_true] at hword
    refine ⟨typed, ?_, hword.2⟩
    rw [← stem_append_before w t, ← hbefore, ← hstem, ← List.append_assoc, stem_append_before]

/-- The parts of a word around a caret are all of it. -/
theorem isRun_around (w : WordSet) (s t : List Char) :
    w.IsRun (w.stem s) (w.before s ++ w.after t) (t.dropWhile w.isWord) := by
  refine ⟨?_, fun c hc => ?_, fun c hc => ?_⟩
  · rw [allWord, List.all_append, Bool.and_eq_true]
    exact ⟨allWord_before w s, allWord_after w t⟩
  · rw [stem_eq] at hc
    obtain ⟨hne, rfl⟩ := List.mem_getLast?_eq_getLast hc
    simpa using List.rdropWhile_last_not w.isWord s hne
  · have h := List.head?_dropWhile_not w.isWord t
    rw [Option.mem_def.1 hc] at h
    exact h

end LanguageClient.WordSet
