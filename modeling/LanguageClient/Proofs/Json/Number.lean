import LanguageClient.Json.Number
import LanguageClient.Json.Printer
import LanguageClient.Proofs.Number.Numeral
import LanguageClient.Proofs.Number.Shortest
import LanguageClient.Proofs.Text.Utf8

/-!
# Printed numbers are read back

What can follow a printed number does not continue it (`Follows`), so the
reader takes exactly its digits, its fraction and its exponent.

* `readNumber?_renderInt`, `value?_renderInt`: an integer is read as itself, as
  long as it fits in 64 bits.
* `isNumber_render`: a double is read as some number.
-/
namespace LanguageClient.Json

/-- What can stand behind a value in a printed text. -/
def Follows (rest : List UInt8) : Prop :=
  ∀ b, rest.head? = some b → b = 0x2C ∨ b = 0x5D ∨ b = 0x7D

theorem follows_nil : Follows [] := fun _ h => by cases h

theorem follows_comma (rest : List UInt8) : Follows (0x2C :: rest) :=
  fun _ h => .inl (Option.some.inj h).symm

theorem follows_bracket (rest : List UInt8) : Follows (0x5D :: rest) :=
  fun _ h => .inr (.inl (Option.some.inj h).symm)

theorem follows_brace (rest : List UInt8) : Follows (0x7D :: rest) :=
  fun _ h => .inr (.inr (Option.some.inj h).symm)

/-! ## Digits -/

def digitValues (digits : List Char) : List Nat :=
  digits.map fun c => c.toNat - 48

/-- Nothing that continues a run of digits. -/
def EndsDigits (rest : List UInt8) : Prop :=
  ∀ b, rest.head? = some b → isDigit b = false

theorem Follows.endsDigits {rest : List UInt8} (h : Follows rest) : EndsDigits rest := by
  intro b hb
  rcases h b hb with rfl | rfl | rfl <;> decide

theorem endsDigits_cons {b : UInt8} (h : isDigit b = false) (rest : List UInt8) :
    EndsDigits (b :: rest) := by
  intro b' hb'
  rwa [← Option.some.inj hb']

theorem isDigit_ofNat {c : Char} (h : c.isDigit = true) : isDigit (UInt8.ofNat c.toNat) = true := by
  have hc := Numeral.toNat_of_isDigit h
  rw [isDigit, Bool.and_eq_true, decide_eq_true_eq, decide_eq_true_eq]
  exact ⟨Utf8.ofNat_le hc.1 (by omega), Utf8.ofNat_le (n := 0x39) hc.2 (by decide)⟩

theorem readDigits_encode {digits : List Char} {rest : List UInt8}
    (hdigits : ∀ c ∈ digits, c.isDigit = true) (hrest : EndsDigits rest) :
    readDigits (Utf8.encode digits ++ rest) = (digitValues digits, rest) := by
  have hascii : ∀ c ∈ digits, c.toNat < 0x80 := fun c hc => by
    have := Numeral.toNat_of_isDigit (hdigits c hc)
    omega
  have hall : ∀ b ∈ Utf8.encode digits, isDigit b = true := by
    intro b hb
    rw [Utf8.encode_ascii hascii] at hb
    obtain ⟨c, hc, rfl⟩ := List.mem_map.1 hb
    exact isDigit_ofNat (hdigits c hc)
  have hstop : rest.takeWhile isDigit = [] ∧ rest.dropWhile isDigit = rest := by
    cases rest with
    | nil => exact ⟨rfl, rfl⟩
    | cons b rest => simp [hrest b rfl]
  rw [readDigits, List.takeWhile_append_of_pos hall, List.dropWhile_append_of_pos hall, hstop.1,
    hstop.2, List.append_nil, Utf8.encode_ascii hascii, List.map_map]
  refine congrArg (·, rest) (List.map_congr_left fun c hc => ?_)
  have := hascii c hc
  rw [Function.comp_apply, digitValue, Utf8.toNat_ofNat (by omega)]

theorem exists_digitValues {digits : List Char} (hne : digits ≠ []) :
    ∃ v vs, digitValues digits = v :: vs := by
  cases digits with
  | nil => exact absurd rfl hne
  | cons c digits => exact ⟨_, _, rfl⟩

/-! ## The parts of a number -/

variable {rest more : List UInt8}

theorem readFraction?_none (h : rest.head? ≠ some 0x2E) :
    readFraction? rest = some (none, rest) := by
  unfold readFraction?
  split
  · exact absurd rfl h
  · rfl

theorem readFraction?_digits {digits : List Char} (hdigits : ∀ c ∈ digits, c.isDigit = true)
    (hne : digits ≠ []) (hrest : EndsDigits rest) :
    readFraction? (0x2E :: (Utf8.encode digits ++ rest)) =
      some (some (digitValues digits), rest) := by
  obtain ⟨v, vs, hvalues⟩ := exists_digitValues hne
  simp [readFraction?, readDigits_encode hdigits hrest, hvalues]

theorem readExponent?_none (h : rest.head? ≠ some 0x65) (h' : rest.head? ≠ some 0x45) :
    readExponent? rest = some (none, rest) := by
  cases rest with
  | nil => rfl
  | cons b rest =>
    have hb : ¬ (b = 0x65 ∨ b = 0x45) := by
      rintro (rfl | rfl)
      · exact h rfl
      · exact h' rfl
    rw [readExponent?.eq_def]
    exact if_neg hb

theorem readExponent?_digits {digits : List Char} (negative : Bool)
    (hdigits : ∀ c ∈ digits, c.isDigit = true) (hne : digits ≠ []) (hrest : EndsDigits rest) :
    readExponent? (0x65 :: (if negative then 0x2D else 0x2B) :: (Utf8.encode digits ++ rest)) =
      some (some (negative, digitValues digits), rest) := by
  obtain ⟨v, vs, hvalues⟩ := exists_digitValues hne
  cases negative <;> simp [readExponent?, readDigits_encode hdigits hrest, hvalues]

theorem Follows.readFraction? (h : Follows rest) :
    Json.readFraction? rest = some (none, rest) :=
  readFraction?_none fun hb => by rcases h _ hb with h | h | h <;> exact absurd h (by decide)

theorem Follows.readExponent? (h : Follows rest) :
    Json.readExponent? rest = some (none, rest) :=
  readExponent?_none (fun hb => by rcases h _ hb with h | h | h <;> exact absurd h (by decide))
    fun hb => by rcases h _ hb with h | h | h <;> exact absurd h (by decide)

/-- Digits with which a number can begin: there are some, and a zero stands alone. -/
structure IsWhole (whole : List Char) : Prop where
  digits : ∀ c ∈ whole, c.isDigit = true
  ne_nil : whole ≠ []
  zero : whole.head? = some '0' → whole.length = 1

theorem IsWhole.values {whole : List Char} (h : IsWhole whole) :
    ¬ (digitValues whole = [] ∨
      (digitValues whole).head? = some 0 ∧ 1 < (digitValues whole).length) := by
  obtain ⟨hdigits, hne, hzero⟩ := h
  cases whole with
  | nil => exact absurd rfl hne
  | cons c cs =>
    rintro (h | ⟨hhead, hlength⟩)
    · cases h
    · have hrange := Numeral.toNat_of_isDigit (hdigits c (by simp))
      have hvalue : c.toNat - 48 = 0 := Option.some.inj hhead
      obtain rfl : c = '0' := Char.toNat_inj.1 (by show c.toNat = 48; omega)
      have := hzero rfl
      simp only [digitValues, List.length_map] at hlength
      omega

/-- A number without a sign does not begin with one. -/
theorem IsWhole.exists_head {whole : List Char} (h : IsWhole whole) (more : List UInt8) :
    ∃ b bytes, Utf8.encode whole ++ more = b :: bytes ∧ b ≠ 0x2D := by
  cases whole with
  | nil => exact absurd rfl h.ne_nil
  | cons c cs =>
    have hrange := Numeral.toNat_of_isDigit (h.digits c (by simp))
    refine ⟨UInt8.ofNat c.toNat, Utf8.encode cs ++ more, ?_, ?_⟩
    · rw [Utf8.encode_cons, Utf8.encodeChar_ascii (by omega)]
      rfl
    · rintro heq
      have := isDigit_ofNat (h.digits c (by simp))
      rw [heq] at this
      exact absurd this (by decide)

/-- A number is read part by part. -/
theorem readNumber?_parts {whole : List Char} {fraction : Option (List Nat)}
    {exponent : Option (Bool × List Nat)} {behind : List UInt8} (negative : Bool)
    (hwhole : IsWhole whole) (hends : EndsDigits more)
    (hfraction : readFraction? more = some (fraction, behind))
    (hexponent : readExponent? behind = some (exponent, rest)) :
    readNumber? (Utf8.encode ((if negative then ['-'] else []) ++ whole) ++ more) =
      some (⟨negative, digitValues whole, fraction, exponent⟩, rest) := by
  have hread := readDigits_encode hwhole.digits hends
  cases negative with
  | true =>
    have hsign : Utf8.encode ((if true then ['-'] else []) ++ whole) ++ more =
        0x2D :: (Utf8.encode whole ++ more) := rfl
    rw [hsign]
    simp [readNumber?, hread, hwhole.values, hfraction, hexponent]
  | false =>
    obtain ⟨b, bytes, hbytes, hb⟩ := hwhole.exists_head more
    have hsign : Utf8.encode ((if false then ['-'] else []) ++ whole) ++ more = b :: bytes := hbytes
    rw [hsign]
    rw [hbytes] at hread
    simp [readNumber?, hb, hread, hwhole.values, hfraction, hexponent]

/-- A text that is read as one number, whatever can stand behind it. -/
def IsNumber (text : List Char) : Prop :=
  ∃ parts, ∀ rest, Follows rest → readNumber? (Utf8.encode text ++ rest) = some (parts, rest)

/-! ## Integers -/

theorem isDigit_toDigits {n : Nat} : ∀ c ∈ Nat.toDigits 10 n, c.isDigit = true :=
  fun _ h => Nat.isDigit_of_mem_toDigits (by decide) (by decide) h

/-- The digits of a number begin with a zero only if the number is zero. -/
theorem eq_zero_of_head {n : Nat} (h : (Nat.toDigits 10 n).head? = some '0') : n = 0 := by
  induction n using Nat.strongRecOn with
  | ind n ih =>
    by_cases hsmall : n < 10
    · have hdigit : ∀ n < 10, Nat.digitChar n = '0' → n = 0 := by decide
      rw [Nat.toDigits_of_lt_base hsmall] at h
      exact hdigit n hsmall (Option.some.inj h)
    · have hsplit : 10 * (n / 10) + n % 10 = n := Nat.div_add_mod n 10
      rw [← hsplit, ← Nat.toDigits_append_toDigits (by decide) (by omega)
        (Nat.mod_lt n (by decide))] at h
      have hhead : (Nat.toDigits 10 (n / 10)).head? = some '0' := by
        cases hd : Nat.toDigits 10 (n / 10) with
        | nil => exact absurd hd Nat.toDigits_ne_nil
        | cons c cs => rwa [hd] at h
      have := ih (n / 10) (by omega) hhead
      omega

theorem isWhole_toDigits (n : Nat) : IsWhole (Nat.toDigits 10 n) := by
  refine ⟨isDigit_toDigits, Nat.toDigits_ne_nil, fun h => ?_⟩
  rw [eq_zero_of_head h]
  rfl

theorem foldl_digitValues (digits : List Char) (n : Nat) :
    (digitValues digits).foldl (fun n d => n * 10 + d) n = Nat.ofDigitChars 10 digits n := by
  induction digits generalizing n with
  | nil => simp [digitValues]
  | cons c digits ih =>
    have hnext : n * 10 + (c.toNat - 48) = 10 * n + (c.toNat - '0'.toNat) := by
      rw [Nat.mul_comm]
      rfl
    rw [Nat.ofDigitChars_cons, ← hnext, ← ih]
    rfl

/-- An integer of 64 bits, signed or unsigned. -/
def FitsInt (n : Int) : Prop :=
  -0x8000000000000000 ≤ n ∧ n ≤ 0xFFFFFFFFFFFFFFFF

theorem readNumber?_renderInt (n : Int) (hrest : Follows rest) :
    readNumber? (Utf8.encode (renderInt n) ++ rest) =
      some (⟨decide (n < 0), digitValues (Nat.toDigits 10 n.natAbs), none, none⟩, rest) := by
  have htext : renderInt n =
      (if decide (n < 0) then ['-'] else []) ++ Nat.toDigits 10 n.natAbs := by
    by_cases hn : n < 0 <;> simp [renderInt, hn]
  rw [htext]
  exact readNumber?_parts _ (isWhole_toDigits _) hrest.endsDigits hrest.readFraction?
    hrest.readExponent?

theorem isNumber_renderInt (n : Int) : IsNumber (renderInt n) :=
  ⟨_, fun _ hrest => readNumber?_renderInt n hrest⟩

theorem value?_renderInt {n : Int} (hn : FitsInt n) :
    NumberParts.value? ⟨decide (n < 0), digitValues (Nat.toDigits 10 n.natAbs), none, none⟩ =
      some (.int n) := by
  obtain ⟨hlow, hhigh⟩ := hn
  have hfold : (digitValues (Nat.toDigits 10 n.natAbs)).foldl (fun n d => n * 10 + d) 0 =
      n.natAbs := by
    rw [foldl_digitValues, Nat.ofDigitChars_ten_toDigits]
  by_cases hneg : n < 0
  · have hrange : 0 < n.natAbs ∧ n.natAbs ≤ 0x8000000000000000 := by omega
    have hvalue : -(n.natAbs : Int) = n := by omega
    simp only [NumberParts.value?, hfold]
    rw [if_neg (by simp [hneg]), if_pos ⟨rfl, rfl, decide_eq_true hneg, hrange⟩, hvalue]
  · have hrange : n.natAbs ≤ maxInteger := by
      rw [maxInteger]
      omega
    have hvalue : (n.natAbs : Int) = n := by omega
    simp only [NumberParts.value?, hfold]
    rw [if_pos ⟨rfl, rfl, by simp [hneg], hrange⟩, hvalue]

/-! ## Doubles -/

open Binary64 (Decimal)

theorem isWhole_take {digits : Nat} {places : Nat} (hplaces : 0 < places) :
    IsWhole ((Nat.toDigits 10 digits).take places) := by
  have hwhole := isWhole_toDigits digits
  have hlength : 0 < (Nat.toDigits 10 digits).length := List.length_pos_iff.2 hwhole.ne_nil
  refine ⟨fun c hc => hwhole.digits c (List.mem_of_mem_take hc), ?_, fun hzero => ?_⟩
  · rw [← List.length_pos_iff, List.length_take]
    omega
  · rw [List.head?_take, if_neg (by omega)] at hzero
    have := hwhole.zero hzero
    rw [List.length_take]
    omega

/-- Zeros are written behind the digits of a decimal only if it is not zero. -/
theorem isWhole_zeros {d : Decimal} (hd : d.Proper) :
    IsWhole (Nat.toDigits 10 d.digits ++ List.replicate d.exponent.toNat '0') := by
  have hwhole := isWhole_toDigits d.digits
  refine ⟨fun c hc => ?_, by simp [hwhole.ne_nil], fun hzero => ?_⟩
  · rcases List.mem_append.1 hc with hc | hc
    · exact hwhole.digits c hc
    · rw [List.eq_of_mem_replicate hc]
      rfl
  · rw [List.head?_append, List.head?_eq_some_head hwhole.ne_nil, Option.some_or,
      ← List.head?_eq_some_head] at hzero
    rcases hd with hd | hd
    · exact absurd (eq_zero_of_head hzero) hd
    · simp [hd, hwhole.zero hzero]

theorem positional_of_whole {d : Decimal} (h : 0 ≤ d.exponent) :
    d.positional =
      Nat.toDigits 10 d.digits ++ List.replicate d.exponent.toNat '0' ++ ['.', '0'] :=
  if_pos h

theorem positional_of_inside {d : Decimal} (h : ¬ 0 ≤ d.exponent) (he : 0 ≤ d.scientific.2) :
    d.positional = (Nat.toDigits 10 d.digits).take (d.scientific.2.toNat + 1) ++
      '.' :: (Nat.toDigits 10 d.digits).drop (d.scientific.2.toNat + 1) :=
  (if_neg h).trans (if_pos he)

theorem positional_of_below {d : Decimal} (h : ¬ 0 ≤ d.exponent) (he : ¬ 0 ≤ d.scientific.2) :
    d.positional = ['0', '.'] ++ List.replicate (-d.scientific.2 - 1).toNat '0' ++
      Nat.toDigits 10 d.digits :=
  (if_neg h).trans (if_neg he)

/-- In positional notation there are digits on both sides of the point. -/
theorem positional_eq {d : Decimal} (hd : d.Proper) :
    ∃ whole fraction, IsWhole whole ∧ (∀ c ∈ fraction, c.isDigit = true) ∧ fraction ≠ [] ∧
      d.positional = whole ++ '.' :: fraction := by
  have hdigits := isWhole_toDigits d.digits
  by_cases hexponent : 0 ≤ d.exponent
  · exact ⟨_, ['0'], isWhole_zeros hd, by simp, by simp, positional_of_whole hexponent⟩
  by_cases hplace : 0 ≤ d.scientific.2
  · refine ⟨_, _, isWhole_take (Nat.succ_pos _), fun c hc => hdigits.digits c
      (List.mem_of_mem_drop hc), ?_, positional_of_inside hexponent hplace⟩
    have hscientific : d.scientific.2 =
      d.exponent + ((Nat.toDigits 10 d.digits).length - 1 : Int) := rfl
    rw [← List.length_pos_iff, List.length_drop]
    omega
  · refine ⟨['0'], _, ⟨by simp, by simp, by simp⟩, fun c hc => ?_, ?_,
      positional_of_below hexponent hplace⟩
    · rcases List.mem_append.1 hc with hc | hc
      · rw [List.eq_of_mem_replicate hc]
        rfl
      · exact hdigits.digits c hc
    · simp [hdigits.ne_nil]

/-- In the other notation one digit stands before the point, and an exponent behind all. -/
theorem exponential_eq (d : Decimal) :
    ∃ (whole fraction : List Char) (negative : Bool) (exponent : Nat), IsWhole whole ∧
      (∀ c ∈ fraction, c.isDigit = true) ∧
      d.exponential = whole ++ ((if fraction = [] then [] else '.' :: fraction) ++
        'e' :: (if negative then '-' else '+') :: Nat.toDigits 10 exponent) := by
  have hdigits := isWhole_toDigits d.digits
  have hsign : (if 0 ≤ d.scientific.2 then '+' else '-') =
      if decide (d.scientific.2 < 0) then '-' else '+' := by
    by_cases h : 0 ≤ d.scientific.2
    · rw [if_pos h, decide_eq_false (by omega)]
      rfl
    · rw [if_neg h, decide_eq_true (by omega)]
      rfl
  have hfraction : (if (Nat.toDigits 10 d.digits).length ≤ 1 then []
      else '.' :: (Nat.toDigits 10 d.digits).drop 1) =
      if (Nat.toDigits 10 d.digits).drop 1 = [] then []
      else '.' :: (Nat.toDigits 10 d.digits).drop 1 := by
    simp only [List.drop_eq_nil_iff]
  refine ⟨(Nat.toDigits 10 d.digits).take 1, (Nat.toDigits 10 d.digits).drop 1,
    decide (d.scientific.2 < 0), d.scientific.2.natAbs, isWhole_take Nat.one_pos,
    fun c hc => hdigits.digits c (List.mem_of_mem_drop hc), ?_⟩
  rw [← hsign, ← hfraction, ← List.append_assoc]
  rfl

/-- The exponent of a double is read back. -/
theorem readExponent?_text (negative : Bool) (exponent : Nat) (hrest : Follows rest) :
    readExponent? (Utf8.encode ('e' :: (if negative then '-' else '+') ::
      Nat.toDigits 10 exponent) ++ rest) =
      some (some (negative, digitValues (Nat.toDigits 10 exponent)), rest) := by
  have hbytes : Utf8.encode ('e' :: (if negative then '-' else '+') ::
      Nat.toDigits 10 exponent) ++ rest =
      0x65 :: (if negative then 0x2D else 0x2B) ::
        (Utf8.encode (Nat.toDigits 10 exponent) ++ rest) := by
    cases negative <;> rfl
  rw [hbytes]
  exact readExponent?_digits negative isDigit_toDigits Nat.toDigits_ne_nil hrest.endsDigits

theorem isNumber_positional {d : Decimal} (negative : Bool) (hd : d.Proper) :
    IsNumber ((if negative then ['-'] else []) ++ d.positional) := by
  obtain ⟨whole, fraction, hwhole, hdigits, hne, htext⟩ := positional_eq hd
  refine ⟨⟨negative, digitValues whole, some (digitValues fraction), none⟩, fun rest hrest => ?_⟩
  rw [htext, ← List.append_assoc, Utf8.encode_append, List.append_assoc]
  exact readNumber?_parts negative hwhole (endsDigits_cons rfl _)
    (readFraction?_digits hdigits hne hrest.endsDigits) hrest.readExponent?

theorem isNumber_exponential (d : Decimal) (negative : Bool) :
    IsNumber ((if negative then ['-'] else []) ++ d.exponential) := by
  obtain ⟨whole, fraction, below, exponent, hwhole, hdigits, htext⟩ := exponential_eq d
  refine ⟨⟨negative, digitValues whole,
    if fraction = [] then none else some (digitValues fraction),
    some (below, digitValues (Nat.toDigits 10 exponent))⟩, fun rest hrest => ?_⟩
  have hexponent := readExponent?_text below exponent hrest
  rw [htext, ← List.append_assoc, Utf8.encode_append _ (_ ++ _), List.append_assoc]
  by_cases hfraction : fraction = []
  · rw [if_pos hfraction, if_pos hfraction, List.nil_append]
    exact readNumber?_parts negative hwhole (endsDigits_cons rfl _)
      (readFraction?_none (show some (0x65 : UInt8) ≠ some 0x2E by decide)) hexponent
  · rw [if_neg hfraction, if_neg hfraction, Utf8.encode_append (_ :: _), List.append_assoc]
    exact readNumber?_parts negative hwhole (endsDigits_cons rfl _)
      (readFraction?_digits hdigits hfraction (endsDigits_cons rfl _)) hexponent

theorem isNumber_render (x : Binary64) : IsNumber x.render := by
  by_cases hplaces : -5 ≤ x.shortest.scientific.2 ∧ x.shortest.scientific.2 < 16
  · have htext : x.render = (if x.negative then ['-'] else []) ++ x.shortest.positional :=
      congrArg (x.signText ++ ·) (if_pos hplaces)
    rw [htext]
    exact isNumber_positional _ x.shortest_proper
  · have htext : x.render = (if x.negative then ['-'] else []) ++ x.shortest.exponential :=
      congrArg (x.signText ++ ·) (if_neg hplaces)
    rw [htext]
    exact isNumber_exponential _ _

end LanguageClient.Json
