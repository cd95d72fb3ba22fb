import Mathlib
import LanguageClient.Completion.Cache
import LanguageClient.Proofs.Completion.Words
import LanguageClient.Proofs.Text.Boundary

/-!
# When an answer serves again

The test compares two columns, takes the prefix of the lesser one off the
other, and looks at what is left. It never asks where a word starts. Yet an
answer serves again exactly while the caret is in the word that it was asked
for (`CompletionCache.canReuse_within_word`).
-/
namespace LanguageClient.CompletionCache

variable {c : CompletionCache} {uri : String} {caret : Position} {linePrefix : String}
  {words : WordSet} {p s rest : List Char}

theorem stripPrefix?_eq_some : stripPrefix? p s = some rest ↔ s = p ++ rest := by
  induction p generalizing s with
  | nil => simp [stripPrefix?]
  | cons d p ih =>
    cases s with
    | nil => simp [stripPrefix?]
    | cons e s =>
      by_cases h : d = e
      · simp [stripPrefix?, h, ih]
      · simp [stripPrefix?, h, Ne.symm h]

/-- A text is another and something of words behind it. -/
def Extends (words : WordSet) (s p : List Char) : Prop :=
  ∃ typed, s = p ++ typed ∧ words.allWord typed = true

theorem extends_iff : (match stripPrefix? p s with
      | some rest => words.allWord rest
      | none => false) = true ↔ Extends words s p := by
  cases h : stripPrefix? p s with
  | none =>
    refine iff_of_false Bool.false_ne_true ?_
    rintro ⟨typed, he, -⟩
    rw [stripPrefix?_eq_some.2 he] at h
    cases h
  | some rest =>
    rw [stripPrefix?_eq_some] at h
    subst h
    simp [Extends]

theorem Extends.length_le (h : Extends words s p) : Utf16.length p ≤ Utf16.length s := by
  obtain ⟨typed, rfl, -⟩ := h
  rw [Utf16.length_append]
  exact Nat.le_add_right _ _

/-- Texts that extend each other are the same. -/
theorem Extends.symm_of_le (h : Extends words s p) (hle : Utf16.length s ≤ Utf16.length p) :
    Extends words p s := by
  obtain ⟨typed, rfl, -⟩ := h
  obtain rfl : typed = [] := by
    by_contra hne
    have := Utf16.length_pos hne
    rw [Utf16.length_append] at hle
    omega
  exact ⟨[], by simp, rfl⟩

/-- The text with the greater column has to extend the other. -/
theorem canReuse_iff : c.canReuse uri caret linePrefix words = true ↔
    c.isIncomplete = false ∧ uri = c.uri ∧ caret.line = c.origin.line ∧
      if c.origin.character ≤ caret.character then
        Extends words linePrefix.toList c.originPrefix.toList
      else Extends words c.originPrefix.toList linePrefix.toList := by
  have hguard : (c.isIncomplete || uri != c.uri || caret.line != c.origin.line) = true ↔
      ¬(c.isIncomplete = false ∧ uri = c.uri ∧ caret.line = c.origin.line) := by
    simp only [Bool.or_eq_true, bne_iff_ne, not_and_or, Bool.not_eq_false, ne_eq, or_assoc]
  simp only [canReuse, hguard, ← and_assoc]
  by_cases hsame : (c.isIncomplete = false ∧ uri = c.uri) ∧ caret.line = c.origin.line
  · simp only [hsame, and_self, not_true_eq_false, if_false, true_and]
    by_cases h : c.origin.character ≤ caret.character
    · simp only [if_pos h]
      exact extends_iff
    · simp only [if_neg h]
      exact extends_iff
  · simp [hsame]

/-- Where the columns are the lengths of the texts, either may extend the other. -/
theorem extends_of_columns
    (horigin : c.origin.character.toNat = Utf16.length c.originPrefix.toList)
    (hcaret : caret.character.toNat = Utf16.length linePrefix.toList) :
    (if c.origin.character ≤ caret.character then
        Extends words linePrefix.toList c.originPrefix.toList
      else Extends words c.originPrefix.toList linePrefix.toList) ↔
      Extends words linePrefix.toList c.originPrefix.toList ∨
        Extends words c.originPrefix.toList linePrefix.toList := by
  have hle : c.origin.character ≤ caret.character ↔
      Utf16.length c.originPrefix.toList ≤ Utf16.length linePrefix.toList := by
    rw [UInt32.le_iff_toNat_le, horigin, hcaret]
  split
  · next h => exact ⟨.inl, fun ho => ho.elim id fun he => he.symm_of_le (hle.1 h)⟩
  · next h => exact ⟨.inr, fun ho => ho.elim (fun he => absurd (hle.2 he.length_le) h) id⟩

/-- Either text extends the other exactly if they differ in the word they end in, and only there
in how far it goes. -/
theorem extends_or_extends : (Extends words s p ∨ Extends words p s) ↔
    words.stem p = words.stem s ∧
      (words.before p <+: words.before s ∨ words.before s <+: words.before p) := by
  rw [Extends, Extends, WordSet.exists_typed_iff, WordSet.exists_typed_iff,
    eq_comm (a := words.stem s), and_or_left]

/-- The column of a caret is that of the stem before it and the length of the word in between. -/
theorem column_eq (words : WordSet) (s : List Char) :
    Utf16.length s = Utf16.length (words.stem s) + Utf16.length (words.before s) := by
  rw [← Utf16.length_append, WordSet.stem_append_before]

/-- **Within the word.** An answer that is complete serves again in its document and on its line
exactly if the texts before the two carets are the same up to the word they end in, and one of
these words is the beginning of the other. The word then starts at the same column. -/
theorem canReuse_within_word
    (horigin : c.origin.character.toNat = Utf16.length c.originPrefix.toList)
    (hcaret : caret.character.toNat = Utf16.length linePrefix.toList) :
    (c.canReuse uri caret linePrefix words = true ↔
      c.isIncomplete = false ∧ uri = c.uri ∧ caret.line = c.origin.line ∧
        words.stem c.originPrefix.toList = words.stem linePrefix.toList ∧
        (words.before c.originPrefix.toList <+: words.before linePrefix.toList ∨
          words.before linePrefix.toList <+: words.before c.originPrefix.toList)) ∧
    (c.canReuse uri caret linePrefix words = true → ∃ column,
      c.origin.character.toNat = column + Utf16.length (words.before c.originPrefix.toList) ∧
        caret.character.toNat = column + Utf16.length (words.before linePrefix.toList)) := by
  have hiff : c.canReuse uri caret linePrefix words = true ↔
      c.isIncomplete = false ∧ uri = c.uri ∧ caret.line = c.origin.line ∧
        words.stem c.originPrefix.toList = words.stem linePrefix.toList ∧
        (words.before c.originPrefix.toList <+: words.before linePrefix.toList ∨
          words.before linePrefix.toList <+: words.before c.originPrefix.toList) := by
    rw [canReuse_iff, extends_of_columns horigin hcaret, extends_or_extends]
  refine ⟨hiff, fun h => ?_⟩
  obtain ⟨-, -, -, hstem, -⟩ := hiff.1 h
  refine ⟨Utf16.length (words.stem linePrefix.toList), ?_, ?_⟩
  · rw [horigin, column_eq words, hstem]
  · rw [hcaret, column_eq words]

theorem canReuse_within_word_erasing : ∃ c : CompletionCache,
    c.origin.character.toNat = Utf16.length c.originPrefix.toList ∧
    (⟨3, 4⟩ : Position).character.toNat = Utf16.length "😀 f".toList ∧
    c.canReuse "a" ⟨3, 4⟩ "😀 f" .standard = true ∧
    c.canReuse "a" ⟨3, 3⟩ "😀 " .standard = true ∧
    c.canReuse "a" ⟨3, 2⟩ "😀" .standard = false := by
  let c : CompletionCache :=
    { requestId := default, uri := "a", origin := ⟨3, 6⟩, originPrefix := "😀 foo"
      isIncomplete := false, received := [], filtered := [] }
  have horigin : c.origin.character.toNat = Utf16.length c.originPrefix.toList := by decide
  have hf : (⟨3, 4⟩ : Position).character.toNat = Utf16.length "😀 f".toList := by decide
  have hnone : (⟨3, 3⟩ : Position).character.toNat = Utf16.length "😀 ".toList := by decide
  have hout : (⟨3, 2⟩ : Position).character.toNat = Utf16.length "😀".toList := by decide
  refine ⟨c, horigin, hf, (canReuse_within_word horigin hf).1.2 ?_,
    (canReuse_within_word horigin hnone).1.2 ?_, ?_⟩
  · decide
  · decide
  · rw [← Bool.not_eq_true, (canReuse_within_word horigin hout).1]
    decide

end LanguageClient.CompletionCache
