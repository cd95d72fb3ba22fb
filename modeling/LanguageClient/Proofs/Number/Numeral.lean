import LanguageClient.Number.Numeral

/-!
# Reading numerals back

* `read_toDigits`: a number below the bound is read back from its digits.
* `read_eq_ok_iff`: what is read are the texts that denote a number below the
  bound.
-/
namespace LanguageClient.Numeral

theorem toNat_of_isDigit {c : Char} (h : c.isDigit = true) : 48 ≤ c.toNat ∧ c.toNat ≤ 57 := by
  simp only [Char.isDigit, Bool.and_eq_true, decide_eq_true_eq] at h
  exact ⟨UInt32.le_iff_toNat_le.1 h.1, UInt32.le_iff_toNat_le.1 h.2⟩

theorem toNat_of_mem_toDigits {n : Nat} {c : Char} (h : c ∈ Nat.toDigits 10 n) :
    48 ≤ c.toNat ∧ c.toNat ≤ 57 :=
  toNat_of_isDigit (Nat.isDigit_of_mem_toDigits (by decide) (by decide) h)

theorem le_ofDigitChars (s : List Char) (n : Nat) : n ≤ Nat.ofDigitChars 10 s n := by
  induction s generalizing n with
  | nil => simp
  | cons c s ih =>
    rw [Nat.ofDigitChars_cons]
    have := ih (10 * n + (c.toNat - '0'.toNat))
    omega

/-- Digits are read as the number they stand for. No number on the way is beyond the last one. -/
theorem readDigits_eq_ok {bound : Nat} (s : List Char) :
    ∀ {n : Nat}, (∀ c ∈ s, c.isDigit = true) → Nat.ofDigitChars 10 s n < bound →
      readDigits bound n s = .ok (Nat.ofDigitChars 10 s n) := by
  induction s with
  | nil => exact fun _ _ => by simp [readDigits]
  | cons c s ih =>
    intro n hdigits hbound
    rw [Nat.ofDigitChars_cons] at hbound ⊢
    have hc : '0'.toNat = 48 := rfl
    have hnext := Nat.lt_of_le_of_lt (le_ofDigitChars s _) hbound
    rw [hc, Nat.mul_comm] at hnext hbound ⊢
    rw [readDigits, if_pos (hdigits c (by simp))]
    simp only [if_pos hnext]
    exact ih (fun d hd => hdigits d (List.mem_cons_of_mem _ hd)) hbound

theorem read_toDigits {bound n : Nat} (h : n < bound) :
    read bound (Nat.toDigits 10 n) = .ok n := by
  have hdigits : ∀ c ∈ Nat.toDigits 10 n, c.isDigit = true := fun c hc =>
    Nat.isDigit_of_mem_toDigits (by decide) (by decide) hc
  have hread : readDigits bound 0 (Nat.toDigits 10 n) = .ok n := by
    have hvalue : Nat.ofDigitChars 10 (Nat.toDigits 10 n) 0 = n := Nat.ofDigitChars_ten_toDigits
    rw [readDigits_eq_ok _ hdigits (by rwa [hvalue]), hvalue]
  -- The first digit is no plus sign.
  cases hs : Nat.toDigits 10 n with
  | nil => exact absurd hs Nat.toDigits_ne_nil
  | cons c s =>
    have hplus : c ≠ '+' := by
      rintro rfl
      have := hdigits '+' (by rw [hs]; simp)
      exact absurd this (by decide)
    rw [hs] at hread
    unfold read
    split
    · next he => cases he
    · next he => exact absurd (List.cons.inj he).1 hplus
    · next he => exact absurd (List.cons.inj he).1 hplus
    · exact hread

/-- A text denotes a number in decimal notation: digits, perhaps behind a plus sign. -/
def Denotes (s : List Char) (n : Nat) : Prop :=
  ∃ digits : List Char, digits ≠ [] ∧ (∀ c ∈ digits, c.isDigit = true) ∧
    (s = digits ∨ s = '+' :: digits) ∧ Nat.ofDigitChars 10 digits 0 = n

theorem of_readDigits {bound : Nat} {s : List Char} {m n : Nat}
    (h : readDigits bound m s = .ok n) :
    (∀ c ∈ s, c.isDigit = true) ∧ Nat.ofDigitChars 10 s m = n ∧ (s ≠ [] → n < bound) := by
  induction s generalizing m with
  | nil =>
    cases h
    simp
  | cons c s ih =>
    rw [readDigits] at h
    split at h
    · next hc =>
      simp only at h
      split at h
      · next hlt =>
        obtain ⟨hdigits, hvalue, hbound⟩ := ih h
        refine ⟨List.forall_mem_cons.2 ⟨hc, hdigits⟩, ?_, fun _ => ?_⟩
        · rw [Nat.ofDigitChars_cons, Nat.mul_comm]
          exact hvalue
        · cases s with
          | nil =>
            cases h
            exact hlt
          | cons d s => exact hbound (by simp)
      · cases h
    · cases h

theorem readDigits_eq_ok_iff {bound : Nat} {s : List Char} {n : Nat} (hs : s ≠ []) :
    readDigits bound 0 s = .ok n ↔
      (∀ c ∈ s, c.isDigit = true) ∧ Nat.ofDigitChars 10 s 0 = n ∧ n < bound := by
  constructor
  · intro h
    obtain ⟨hdigits, hvalue, hbound⟩ := of_readDigits h
    exact ⟨hdigits, hvalue, hbound hs⟩
  · rintro ⟨hdigits, rfl, hbound⟩
    exact readDigits_eq_ok s hdigits hbound

theorem denotes_plus {s : List Char} {n : Nat} : Denotes ('+' :: s) n ↔
    s ≠ [] ∧ (∀ c ∈ s, c.isDigit = true) ∧ Nat.ofDigitChars 10 s 0 = n := by
  constructor
  · rintro ⟨digits, hne, hdigits, rfl | he, hvalue⟩
    · exact absurd (hdigits '+' (by simp)) (by decide)
    · obtain ⟨-, rfl⟩ := List.cons.inj he
      exact ⟨hne, hdigits, hvalue⟩
  · rintro ⟨hne, hdigits, hvalue⟩
    exact ⟨s, hne, hdigits, .inr rfl, hvalue⟩

theorem denotes_of_ne_plus {s : List Char} {n : Nat} (h : ∀ t, s ≠ '+' :: t) : Denotes s n ↔
    s ≠ [] ∧ (∀ c ∈ s, c.isDigit = true) ∧ Nat.ofDigitChars 10 s 0 = n := by
  constructor
  · rintro ⟨digits, hne, hdigits, rfl | he, hvalue⟩
    · exact ⟨hne, hdigits, hvalue⟩
    · exact absurd he (h digits)
  · rintro ⟨hne, hdigits, hvalue⟩
    exact ⟨s, hne, hdigits, .inl rfl, hvalue⟩

theorem read_eq_ok_iff {bound : Nat} {s : List Char} {n : Nat} :
    read bound s = .ok n ↔ Denotes s n ∧ n < bound := by
  unfold read
  split
  · rw [denotes_of_ne_plus (by simp)]
    simp
  · rw [denotes_plus]
    simp
  · next t hne =>
    have ht : t ≠ [] := fun h => hne (by rw [h])
    rw [denotes_plus, readDigits_eq_ok_iff ht]
    simp [ht, and_assoc]
  · next hnil _ hplus =>
    have hs : s ≠ [] := hnil
    rw [denotes_of_ne_plus fun t => hplus t, readDigits_eq_ok_iff hs]
    simp [hs, and_assoc]

end LanguageClient.Numeral
