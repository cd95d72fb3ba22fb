import LanguageClient.Text.Utf8

/-!
# Encoded text is decoded again

* `encode_ascii`: a text of ASCII characters has one octet for each.
* `decode?_encode`: the octets of a text are decoded to the text.
-/
namespace LanguageClient.Utf8

theorem encodeChar_ascii {c : Char} (h : c.toNat < 0x80) :
    encodeChar c = [UInt8.ofNat c.toNat] := by
  simp [encodeChar, h]

theorem encode_ascii {s : List Char} (h : ∀ c ∈ s, c.toNat < 0x80) :
    encode s = s.map fun c => UInt8.ofNat c.toNat := by
  induction s with
  | nil => rfl
  | cons c s ih =>
    rw [encode_cons, encodeChar_ascii (h c (by simp)), ih fun d hd => h d (by simp [hd])]
    rfl

/-- The octets of an ASCII text are its characters. -/
theorem map_encode_ascii {s : List Char} (h : ∀ c ∈ s, c.toNat < 0x80) :
    ((encode s).map fun b => Char.ofNat b.toNat) = s := by
  rw [encode_ascii h, List.map_map]
  have hid : ∀ c ∈ s, ((fun b : UInt8 => Char.ofNat b.toNat) ∘ fun c => UInt8.ofNat c.toNat) c =
      id c := by
    intro c hc
    have hbyte : (UInt8.ofNat c.toNat).toNat = c.toNat :=
      UInt8.toNat_ofNat_of_lt' (Nat.lt_trans (h c hc) (by decide))
    simp only [Function.comp_apply, hbyte, Char.ofNat_toNat, id]
  rw [List.map_congr_left hid, List.map_id]

/-- The character of an octet has the number of the octet. -/
theorem toNat_ofNat_byte (b : UInt8) : (Char.ofNat b.toNat).toNat = b.toNat := by
  have hvalid : b.toNat.isValidChar := .inl (Nat.lt_trans b.toNat_lt (by decide))
  rw [Char.ofNat, dif_pos hvalid]
  exact UInt32.toNat_ofNatLT

/-! ## What is encoded is decoded -/

theorem toNat_ofNat {n : Nat} (h : n < 256) : (UInt8.ofNat n).toNat = n :=
  UInt8.toNat_ofNat_of_lt' h

theorem ofNat_lt {m n : Nat} (h : m < n) (hn : n < 256) : UInt8.ofNat m < UInt8.ofNat n := by
  rw [UInt8.lt_iff_toNat_lt, toNat_ofNat (Nat.lt_trans h hn), toNat_ofNat hn]
  exact h

theorem ofNat_le {m n : Nat} (h : m ≤ n) (hn : n < 256) : UInt8.ofNat m ≤ UInt8.ofNat n := by
  rw [UInt8.le_iff_toNat_le, toNat_ofNat (Nat.lt_of_le_of_lt h hn), toNat_ofNat hn]
  exact h

theorem tail?_ofNat {n : Nat} (h : n < 64) : tail? (UInt8.ofNat (0x80 + n)) = some n := by
  have hlow : 0x80 ≤ UInt8.ofNat (0x80 + n) := ofNat_le (Nat.le_add_right _ _) (by omega)
  have hhigh : UInt8.ofNat (0x80 + n) < 0xC0 := ofNat_lt (n := 0xC0) (by omega) (by decide)
  rw [tail?, if_pos ⟨hlow, hhigh⟩, toNat_ofNat (by omega), Nat.add_sub_cancel_left]

variable {a b b₂ b₃ : UInt8} {c : Char}

theorem decode?_one (h : a < 0x80) (rest : List UInt8) :
    decode? (a :: rest) = (Char.ofNat a.toNat :: ·) <$> decode? rest := by
  rw [decode?.eq_def]
  exact if_pos h

theorem decode?_two (hlow : ¬ a < 0x80) (hhigh : a < 0xE0) (h : decodeTwo? a b = some c)
    (rest : List UInt8) : decode? (a :: b :: rest) = (c :: ·) <$> decode? rest := by
  rw [decode?.eq_def]
  dsimp only
  rw [if_neg hlow, if_pos hhigh, h]
  rfl

theorem decode?_three (hlow : ¬ a < 0xE0) (hhigh : a < 0xF0)
    (h : decodeThree? a b b₂ = some c) (rest : List UInt8) :
    decode? (a :: b :: b₂ :: rest) = (c :: ·) <$> decode? rest := by
  have hlow' : ¬ a < 0x80 := fun h => hlow (UInt8.lt_trans h (by decide))
  rw [decode?.eq_def]
  dsimp only
  rw [if_neg hlow', if_neg hlow, if_pos hhigh, h]
  rfl

theorem decode?_four (hlow : ¬ a < 0xF0) (h : decodeFour? a b b₂ b₃ = some c)
    (rest : List UInt8) : decode? (a :: b :: b₂ :: b₃ :: rest) = (c :: ·) <$> decode? rest := by
  have hlow' : ¬ a < 0xE0 := fun h => hlow (UInt8.lt_trans h (by decide))
  have hlow'' : ¬ a < 0x80 := fun h => hlow (UInt8.lt_trans h (by decide))
  rw [decode?.eq_def]
  dsimp only
  rw [if_neg hlow'', if_neg hlow', if_neg hlow, h]
  rfl

theorem decodeTwo?_encode {n : Nat} (hlow : 0x80 ≤ n) (hhigh : n < 0x800) :
    decodeTwo? (UInt8.ofNat (0xC0 + n / 64)) (UInt8.ofNat (0x80 + n % 64)) =
      some (Char.ofNat n) := by
  have hfirst : 0xC2 ≤ UInt8.ofNat (0xC0 + n / 64) ∧ UInt8.ofNat (0xC0 + n / 64) < 0xE0 :=
    ⟨ofNat_le (m := 0xC2) (by omega) (by omega), ofNat_lt (n := 0xE0) (by omega) (by decide)⟩
  have hsum : (0xC0 + n / 64 - 0xC0) * 64 + n % 64 = n := by omega
  rw [decodeTwo?, tail?_ofNat (by omega)]
  simp only [Option.bind_eq_bind, Option.bind_some, if_pos hfirst, toNat_ofNat (n := 0xC0 + n / 64)
    (by omega), hsum]

theorem decodeThree?_eq_some {x y n : Nat} (hx : tail? b = some x) (hy : tail? b₂ = some y)
    (hlow : 0xE0 ≤ a) (hhigh : a < 0xF0) (hn : (a.toNat - 0xE0) * 4096 + x * 64 + y = n)
    (hrange : ¬ (n < 0x800 ∨ (0xD800 ≤ n ∧ n < 0xE000))) :
    decodeThree? a b b₂ = some (Char.ofNat n) := by
  subst hn
  rw [decodeThree?, hx, hy]
  exact (if_pos ⟨hlow, hhigh⟩).trans (if_neg hrange)

theorem decodeFour?_eq_some {x y z n : Nat} (hx : tail? b = some x) (hy : tail? b₂ = some y)
    (hz : tail? b₃ = some z) (hlow : 0xF0 ≤ a) (hhigh : a < 0xF5)
    (hn : (a.toNat - 0xF0) * 262144 + x * 4096 + y * 64 + z = n)
    (hrange : ¬ (n < 0x10000 ∨ 0x110000 ≤ n)) :
    decodeFour? a b b₂ b₃ = some (Char.ofNat n) := by
  subst hn
  rw [decodeFour?, hx, hy, hz]
  exact (if_pos ⟨hlow, hhigh⟩).trans (if_neg hrange)

/-- The octets of a character are read as the character. -/
theorem decode?_encodeChar (c : Char) (rest : List UInt8) :
    decode? (encodeChar c ++ rest) = (c :: ·) <$> decode? rest := by
  have hc : Char.ofNat c.toNat = c := Char.ofNat_toNat c
  have hvalid : c.toNat < 0xD800 ∨ 0xDFFF < c.toNat ∧ c.toNat < 0x110000 := c.valid
  simp only [encodeChar]
  split
  · next h =>
    have hfirst : UInt8.ofNat c.toNat < 0x80 := ofNat_lt h (by decide)
    rw [List.singleton_append, decode?_one hfirst, toNat_ofNat (by omega), hc]
  split
  · next h h' =>
    have hlow : 0x80 ≤ UInt8.ofNat (0xC0 + c.toNat / 64) :=
      ofNat_le (m := 0x80) (by omega) (by omega)
    have hhigh : UInt8.ofNat (0xC0 + c.toNat / 64) < 0xE0 :=
      ofNat_lt (n := 0xE0) (by omega) (by decide)
    have htwo := decodeTwo?_encode (Nat.le_of_not_lt h) h'
    rw [hc] at htwo
    exact decode?_two (UInt8.not_lt.2 hlow) hhigh htwo rest
  split
  · next h h' =>
    have hlow : 0xE0 ≤ UInt8.ofNat (0xE0 + c.toNat / 4096) :=
      ofNat_le (m := 0xE0) (by omega) (by omega)
    have hhigh : UInt8.ofNat (0xE0 + c.toNat / 4096) < 0xF0 :=
      ofNat_lt (n := 0xF0) (by omega) (by decide)
    have hthree := decodeThree?_eq_some (n := c.toNat)
      (tail?_ofNat (n := c.toNat / 64 % 64) (by omega))
      (tail?_ofNat (n := c.toNat % 64) (by omega)) hlow hhigh
      (by rw [toNat_ofNat (by omega)]; omega) (by omega)
    rw [hc] at hthree
    exact decode?_three (UInt8.not_lt.2 hlow) hhigh hthree rest
  · next h =>
    have hlow : 0xF0 ≤ UInt8.ofNat (0xF0 + c.toNat / 262144) :=
      ofNat_le (m := 0xF0) (by omega) (by omega)
    have hhigh : UInt8.ofNat (0xF0 + c.toNat / 262144) < 0xF5 :=
      ofNat_lt (n := 0xF5) (by omega) (by decide)
    have hfour := decodeFour?_eq_some (n := c.toNat)
      (tail?_ofNat (n := c.toNat / 4096 % 64) (by omega))
      (tail?_ofNat (n := c.toNat / 64 % 64) (by omega))
      (tail?_ofNat (n := c.toNat % 64) (by omega)) hlow hhigh
      (by rw [toNat_ofNat (by omega)]; omega) (by omega)
    rw [hc] at hfour
    exact decode?_four (UInt8.not_lt.2 hlow) hfour rest

/-- What is encoded is decoded to the text it was. -/
theorem decode?_encode (s : List Char) : decode? (encode s) = some s := by
  induction s with
  | nil => rfl
  | cons c s ih =>
    rw [encode_cons, decode?_encodeChar, ih]
    rfl

theorem toString?_ofString (s : String) : toString? (ofString s) = some s := by
  rw [toString?, ofString, decode?_encode]
  exact congrArg some String.ofList_toList

end LanguageClient.Utf8
