import LanguageClient.Json.Printer
import LanguageClient.Json.Text
import LanguageClient.Proofs.Text.Utf8

/-!
# Printed strings are read back

A printed string is read character by character: what is escaped is turned
back, and the octets of all else stand for themselves.

* `readText?_renderText`: what is read behind the opening quote is the string.
-/
namespace LanguageClient.Json

variable {s rest bytes : List UInt8} {fuel : Nat}

/-! ## One step of the reader -/

attribute [local simp] readString?

/-- An octet that stands for itself in a string. -/
def IsPlain (b : UInt8) : Prop :=
  0x20 ≤ b ∧ b ≠ 0x22 ∧ b ≠ 0x5C

theorem readString?_plain {b : UInt8} (hb : IsPlain b)
    (h : readString? fuel s = some (some bytes, rest)) :
    readString? (fuel + 1) (b :: s) = some (some (b :: bytes), rest) := by
  obtain ⟨hlow, hquote, hslash⟩ := hb
  simp [hquote, UInt8.not_lt.2 hlow, hslash, h]

/-- Octets that stand for themselves, one after another. -/
theorem readString?_plains {plain : List UInt8} (hplain : ∀ b ∈ plain, IsPlain b)
    (h : readString? fuel s = some (some bytes, rest)) :
    readString? (fuel + plain.length) (plain ++ s) = some (some (plain ++ bytes), rest) := by
  induction plain with
  | nil => exact h
  | cons b plain ih =>
    rw [List.length_cons, ← Nat.add_assoc]
    exact readString?_plain (hplain b (by simp)) (ih fun b' hb' => hplain b' (by simp [hb']))

theorem readString?_escape {e b : UInt8} (he : escapeByte? e = some b)
    (h : readString? fuel s = some (some bytes, rest)) :
    readString? (fuel + 1) (0x5C :: e :: s) = some (some (b :: bytes), rest) := by
  have hu : e ≠ 0x75 := by
    rintro rfl
    cases he
  rw [readString?, if_neg (by decide), if_neg (by decide), if_pos rfl]
  · simp [he, h]
  · exact hu

theorem readString?_unit {s' : List UInt8} {n : Nat} (hunit : readUnit? s' = some (n, s))
    (hn : n < 0xD800) (h : readString? fuel s = some (some bytes, rest)) :
    readString? (fuel + 1) (0x5C :: 0x75 :: s') =
      some (some (Utf8.encodeChar (Char.ofNat n) ++ bytes), rest) := by
  have hlead : isLead n = false := by simp [isLead]; omega
  have htrail : isTrail n = false := by simp [isTrail]; omega
  rw [readString?, if_neg (by decide), if_neg (by decide), if_pos rfl]
  simp [hunit, hlead, htrail, h]

/-! ## Characters -/

theorem hexValue?_hexDigit : ∀ n < 16, hexValue? (UInt8.ofNat (hexDigit n).toNat) = some n := by
  decide

theorem encode_hexDigit : ∀ n < 16, Utf8.encodeChar (hexDigit n) =
    [UInt8.ofNat (hexDigit n).toNat] := by
  decide

theorem isPlain_of_le {n : Nat} (hlow : 0x80 ≤ n) (hhigh : n < 256) : IsPlain (UInt8.ofNat n) := by
  have hle : 0x80 ≤ UInt8.ofNat n := Utf8.ofNat_le hlow hhigh
  refine ⟨UInt8.le_trans (by decide) hle, ?_, ?_⟩ <;> intro h <;> rw [h] at hle <;>
    exact absurd hle (by decide)

theorem isPlain_ascii {c : Char} (hlow : 32 ≤ c.toNat) (hhigh : c.toNat < 0x80) (hquote : c ≠ '"')
    (hslash : c ≠ '\\') : IsPlain (UInt8.ofNat c.toNat) := by
  have hbyte : (UInt8.ofNat c.toNat).toNat = c.toNat := Utf8.toNat_ofNat (by omega)
  refine ⟨Utf8.ofNat_le hlow (by omega), fun h => hquote ?_, fun h => hslash ?_⟩
  · rw [h] at hbyte
    exact Char.toNat_inj.1 hbyte.symm
  · rw [h] at hbyte
    exact Char.toNat_inj.1 hbyte.symm

/-- The octets of a character that needs no escape stand for themselves. -/
theorem isPlain_encodeChar {c : Char} (hlow : 32 ≤ c.toNat) (hquote : c ≠ '"') (hslash : c ≠ '\\') :
    ∀ b ∈ Utf8.encodeChar c, IsPlain b := by
  have hvalid : c.toNat < 0xD800 ∨ 0xDFFF < c.toNat ∧ c.toNat < 0x110000 := c.valid
  intro b hb
  simp only [Utf8.encodeChar] at hb
  split at hb
  · next h =>
    obtain rfl := List.mem_singleton.1 hb
    exact isPlain_ascii hlow h hquote hslash
  -- All octets of a longer sequence are at least 0x80.
  split at hb
  · next h h' =>
    simp only [List.mem_cons, List.not_mem_nil, or_false] at hb
    rcases hb with rfl | rfl <;> exact isPlain_of_le (by omega) (by omega)
  split at hb
  · next h h' =>
    simp only [List.mem_cons, List.not_mem_nil, or_false] at hb
    rcases hb with rfl | rfl | rfl <;> exact isPlain_of_le (by omega) (by omega)
  · simp only [List.mem_cons, List.not_mem_nil, or_false] at hb
    rcases hb with rfl | rfl | rfl | rfl <;> exact isPlain_of_le (by omega) (by omega)

/-- A letter behind a backslash is read as what it stands for. -/
theorem readString?_pair {e b : UInt8} (he : escapeByte? e = some b) {n : Nat}
    (h : ∀ fuel, n < fuel → readString? fuel s = some (some bytes, rest)) (hfuel : 2 + n < fuel) :
    readString? fuel (0x5C :: e :: s) = some (some (b :: bytes), rest) := by
  cases fuel with
  | zero => cases hfuel
  | succ fuel => exact readString?_escape he (h fuel (by omega))

/-- A control character is read from its number. -/
theorem readString?_control {c : Char} (hc : c.toNat < 32) {n : Nat}
    (h : ∀ fuel, n < fuel → readString? fuel s = some (some bytes, rest)) (hfuel : 6 + n < fuel) :
    readString? fuel (Utf8.encode ['\\', 'u', '0', '0', hexDigit (c.toNat / 16),
        hexDigit (c.toNat % 16)] ++ s) = some (some (Utf8.encodeChar c ++ bytes), rest) := by
  cases fuel with
  | zero => cases hfuel
  | succ fuel =>
    have hunit : readUnit? (0x30 :: 0x30 :: UInt8.ofNat (hexDigit (c.toNat / 16)).toNat ::
        UInt8.ofNat (hexDigit (c.toNat % 16)).toNat :: s) = some (c.toNat, s) := by
      have hzero : hexValue? 0x30 = some 0 := by decide
      have hsum : ((0 * 16 + 0) * 16 + c.toNat / 16) * 16 + c.toNat % 16 = c.toNat := by omega
      simp only [readUnit?, hzero, hexValue?_hexDigit _ (show c.toNat / 16 < 16 by omega),
        hexValue?_hexDigit _ (show c.toNat % 16 < 16 by omega), Option.bind_eq_bind,
        Option.bind_some, hsum]
    have hread := readString?_unit hunit (by omega) (h fuel (by omega))
    rw [Char.ofNat_toNat] at hread
    rw [Utf8.encode_cons, Utf8.encode_cons, Utf8.encode_cons, Utf8.encode_cons, Utf8.encode_cons,
      Utf8.encode_cons, encode_hexDigit _ (show c.toNat / 16 < 16 by omega),
      encode_hexDigit _ (show c.toNat % 16 < 16 by omega)]
    exact hread

/-- A printed character is read as the character. -/
theorem readString?_escapeChar (c : Char) {n : Nat}
    (h : ∀ fuel, n < fuel → readString? fuel s = some (some bytes, rest))
    (hfuel : (Utf8.encode (escapeChar c)).length + n < fuel) :
    readString? fuel (Utf8.encode (escapeChar c) ++ s) =
      some (some (Utf8.encodeChar c ++ bytes), rest) := by
  unfold escapeChar at hfuel ⊢
  split at hfuel
  · next hc => subst hc; exact readString?_pair (e := 0x22) rfl h hfuel
  split at hfuel
  · next hc => subst hc; exact readString?_pair (e := 0x5C) rfl h hfuel
  split at hfuel
  · next hc => subst hc; exact readString?_pair (e := 0x6E) rfl h hfuel
  split at hfuel
  · next hc => subst hc; exact readString?_pair (e := 0x72) rfl h hfuel
  split at hfuel
  · next hc => subst hc; exact readString?_pair (e := 0x74) rfl h hfuel
  split at hfuel
  · next hc =>
    obtain rfl : c = Char.ofNat 8 := Char.toNat_inj.1 hc
    exact readString?_pair (e := 0x62) rfl h hfuel
  split at hfuel
  · next hc =>
    obtain rfl : c = Char.ofNat 12 := Char.toNat_inj.1 hc
    exact readString?_pair (e := 0x66) rfl h hfuel
  split at hfuel
  · next hquote hslash hn hr ht hb hf hlow =>
    rw [if_neg hquote, if_neg hslash, if_neg hn, if_neg hr, if_neg ht, if_neg hb, if_neg hf,
      if_pos hlow]
    refine readString?_control hlow h ?_
    rw [Utf8.encode_cons, Utf8.encode_cons, Utf8.encode_cons, Utf8.encode_cons, Utf8.encode_cons,
      Utf8.encode_cons, encode_hexDigit _ (show c.toNat / 16 < 16 by omega),
      encode_hexDigit _ (show c.toNat % 16 < 16 by omega)] at hfuel
    exact hfuel
  · next hquote hslash hn hr ht hb hf hlow =>
    rw [if_neg hquote, if_neg hslash, if_neg hn, if_neg hr, if_neg ht, if_neg hb, if_neg hf,
      if_neg hlow, Utf8.encode_cons, Utf8.encode_nil, List.append_nil]
    rw [Utf8.encode_cons, Utf8.encode_nil, List.append_nil] at hfuel
    have hplain := isPlain_encodeChar (Nat.le_of_not_lt hlow) hquote hslash
    obtain ⟨spare, rfl⟩ := Nat.exists_eq_add_of_le (Nat.le_of_lt (Nat.lt_of_le_of_lt
      (Nat.le_add_right _ n) hfuel))
    rw [Nat.add_comm]
    exact readString?_plains hplain (h spare (by omega))

/-- What is read behind the opening quote of a printed string is the string. -/
theorem readText?_renderText (t : String) (rest : List UInt8) :
    readText? (Utf8.encode (t.toList.flatMap escapeChar) ++ 0x22 :: rest) =
      some (some t, rest) := by
  have hread : ∀ (cs : List Char) (fuel : Nat),
      (Utf8.encode (cs.flatMap escapeChar)).length < fuel →
      readString? fuel (Utf8.encode (cs.flatMap escapeChar) ++ 0x22 :: rest) =
        some (some (Utf8.encode cs), rest) := by
    intro cs
    induction cs with
    | nil =>
      intro fuel hfuel
      cases fuel with
      | zero => cases hfuel
      | succ fuel => simp
    | cons c cs ih =>
      intro fuel hfuel
      rw [List.flatMap_cons, Utf8.encode_append, List.length_append] at hfuel
      rw [List.flatMap_cons, Utf8.encode_append, List.append_assoc, Utf8.encode_cons]
      exact readString?_escapeChar c ih hfuel
  have htext := Utf8.toString?_ofString t
  rw [Utf8.ofString] at htext
  have hfuel : (Utf8.encode (t.toList.flatMap escapeChar)).length <
      (Utf8.encode (t.toList.flatMap escapeChar) ++ 0x22 :: rest).length + 1 := by
    rw [List.length_append]
    omega
  rw [readText?, hread t.toList _ hfuel]
  simp [htext]

end LanguageClient.Json
