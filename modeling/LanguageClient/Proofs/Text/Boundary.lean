import Mathlib
import LanguageClient.Text.Utf16
import LanguageClient.Proofs.Text.Utf8

/-!
# Places in the octets of a text

An offset counts octets. It stands between two characters, or at an end of the
text, unless the octet behind it continues a character (`isBoundary`), and
slices may only be cut there (`slice?`). One such place is no end of a line
nor the start of one: that between a carriage return and the line feed that
ends the line with it (`isInsidePair`).

* `isBoundary_encode`: the boundaries are the lengths of what a text starts with.
* `isInsidePair_encode`: both characters of a pair stand around its inside.
* `slice?_encode`: what is cut at boundaries is text.
-/
namespace LanguageClient

namespace Utf8

/-! ## Lengths -/

@[simp] theorem byteLength_nil : byteLength [] = 0 := rfl

@[simp] theorem byteLength_cons (c : Char) (s : List Char) :
    byteLength (c :: s) = charLength c + byteLength s := rfl

@[simp] theorem byteLength_append (s t : List Char) :
    byteLength (s ++ t) = byteLength s + byteLength t := by
  rw [← length_encode, encode_append, List.length_append, length_encode, length_encode]

theorem charLength_pos (c : Char) : 0 < charLength c := by
  unfold charLength
  grind

theorem byteLength_pos {s : List Char} (h : s ≠ []) : 0 < byteLength s := by
  cases s with
  | nil => exact absurd rfl h
  | cons c s => exact Nat.add_pos_left (charLength_pos c) _

/-- What a text starts with is known by its length. -/
theorem append_inj {x y x' y' : List Char} (h : x ++ y = x' ++ y')
    (hlength : byteLength x = byteLength x') : x = x' ∧ y = y' := by
  rcases List.append_eq_append_iff.1 h with ⟨z, rfl, rfl⟩ | ⟨z, rfl, rfl⟩
  all_goals
    rw [byteLength_append] at hlength
    have hz : z = [] := by
      by_contra hz
      have := byteLength_pos hz
      omega
    simp [hz]

/-! ## First and further octets -/

def isContinuation (b : UInt8) : Bool :=
  (tail? b).isSome

theorem isContinuation_ofNat {n : Nat} (h : n < 64) :
    isContinuation (UInt8.ofNat (0x80 + n)) = true := by
  rw [isContinuation, tail?_ofNat h, Option.isSome_some]

theorem le_of_isContinuation {b : UInt8} (h : isContinuation b = true) : 0x80 ≤ b.toNat := by
  unfold isContinuation tail? at h
  split at h
  · next hb => exact UInt8.le_iff_toNat_le.1 hb.1
  · cases h

theorem not_isContinuation {b : UInt8} (h : b.toNat < 0x80 ∨ 0xC0 ≤ b.toNat) :
    isContinuation b = false := by
  have hb : ¬(0x80 ≤ b ∧ b < 0xC0) := by
    rintro ⟨hlow, hhigh⟩
    have := UInt8.le_iff_toNat_le.1 hlow
    have := UInt8.lt_iff_toNat_lt.1 hhigh
    simp only [UInt8.reduceToNat] at *
    omega
  rw [isContinuation, tail?, if_neg hb, Option.isSome_none]

/-- The octets of one character: the first starts it, the others continue it, and the first of an
ASCII character is all of it. -/
structure IsSequence (c : Char) (b : UInt8) (rest : List UInt8) : Prop where
  first : isContinuation b = false
  further : ∀ d ∈ rest, isContinuation d = true
  ascii : b.toNat < 0x80 → rest = [] ∧ b.toNat = c.toNat

theorem isSequence_high {c : Char} {n : Nat} {rest : List UInt8} (hlow : 0xC0 ≤ n) (hn : n < 256)
    (h : ∀ d ∈ rest, isContinuation d = true) : IsSequence c (UInt8.ofNat n) rest := by
  have hb : (UInt8.ofNat n).toNat = n := toNat_ofNat hn
  exact ⟨not_isContinuation (.inr (by omega)), h, fun hascii => by omega⟩

theorem encodeChar_eq (c : Char) : ∃ b rest, encodeChar c = b :: rest ∧ IsSequence c b rest := by
  have hmax : c.toNat < 0x110000 := by
    rcases c.valid with h | ⟨-, h⟩
    · exact Nat.lt_trans h (by decide)
    · exact h
  have hmod : ∀ m, isContinuation (UInt8.ofNat (0x80 + m % 64)) = true :=
    fun m => isContinuation_ofNat (Nat.mod_lt _ (by decide))
  simp only [encodeChar]
  split
  · next h =>
    have hb : (UInt8.ofNat c.toNat).toNat = c.toNat := toNat_ofNat (by omega)
    exact ⟨_, _, rfl, not_isContinuation (.inl (by omega)), by simp, fun _ => ⟨rfl, hb⟩⟩
  split
  · exact ⟨_, _, rfl, isSequence_high (by omega) (by omega)
      (List.forall_mem_singleton.2 (hmod _))⟩
  split
  · exact ⟨_, _, rfl, isSequence_high (by omega) (by omega)
      (List.forall_mem_cons.2 ⟨hmod _, List.forall_mem_singleton.2 (hmod _)⟩)⟩
  · exact ⟨_, _, rfl, isSequence_high (by omega) (by omega) (List.forall_mem_cons.2
      ⟨hmod _, List.forall_mem_cons.2 ⟨hmod _, List.forall_mem_singleton.2 (hmod _)⟩⟩)⟩

/-- Among the octets of a character is one in the ASCII range only if it is the character. -/
theorem toNat_of_mem_encodeChar {c : Char} {b : UInt8} (hb : b.toNat < 0x80)
    (h : b ∈ encodeChar c) : b.toNat = c.toNat := by
  obtain ⟨first, rest, he, hs⟩ := encodeChar_eq c
  rw [he] at h
  rcases List.mem_cons.1 h with rfl | h
  · exact (hs.ascii hb).2
  · have := le_of_isContinuation (hs.further b h)
    omega

/-! ## Boundaries -/

/-- Whether an offset stands between two characters, or at an end of the text. -/
def isBoundary (bytes : List UInt8) (n : Nat) : Bool :=
  match bytes[n]? with
  | some b => !isContinuation b
  | none => n = bytes.length

theorem isBoundary_cons (c : Char) (s : List Char) (n : Nat) :
    isBoundary (encode (c :: s)) (charLength c + n) = isBoundary (encode s) n := by
  have hget : (encode (c :: s))[charLength c + n]? = (encode s)[n]? := by
    rw [encode_cons, ← length_encodeChar, List.getElem?_append_right (Nat.le_add_right _ _),
      Nat.add_sub_cancel_left]
  have hlength : (encode (c :: s)).length = charLength c + (encode s).length := by
    rw [encode_cons, List.length_append, length_encodeChar]
  simp only [isBoundary, hget, hlength, Nat.add_left_cancel_iff]

theorem not_isBoundary_inside {c : Char} {n : Nat} (hn : n + 1 < charLength c) (s : List Char) :
    isBoundary (encode (c :: s)) (n + 1) = false := by
  obtain ⟨b, rest, he, hs⟩ := encodeChar_eq c
  have hlength := length_encodeChar c
  rw [he, List.length_cons] at hlength
  have hrest : n < rest.length := by omega
  have hget : (encode (c :: s))[n + 1]? = some rest[n] := by
    rw [encode_cons, he, List.cons_append, List.getElem?_cons_succ,
      List.getElem?_append_left hrest, List.getElem?_eq_getElem]
  simp only [isBoundary, hget, hs.further _ (List.getElem_mem _), Bool.not_true]

/-- The boundaries of a text are the lengths of what it starts with. -/
theorem isBoundary_encode (s : List Char) (n : Nat) :
    isBoundary (encode s) n = true ↔ ∃ x y, s = x ++ y ∧ byteLength x = n := by
  induction s generalizing n with
  | nil =>
    have hnil : isBoundary (encode []) n = true ↔ n = 0 := decide_eq_true_iff
    rw [hnil]
    constructor
    · rintro rfl
      exact ⟨[], [], rfl, rfl⟩
    · rintro ⟨x, y, he, rfl⟩
      rw [(List.append_eq_nil_iff.1 he.symm).1, byteLength_nil]
  | cons c s ih =>
    constructor
    · intro h
      rcases Nat.lt_or_ge n (charLength c) with hn | hn
      · cases n with
        | zero => exact ⟨[], c :: s, rfl, rfl⟩
        | succ n => rw [not_isBoundary_inside hn] at h; cases h
      · obtain ⟨m, rfl⟩ := Nat.le.dest hn
        rw [isBoundary_cons] at h
        obtain ⟨x, y, rfl, rfl⟩ := (ih m).1 h
        exact ⟨c :: x, y, rfl, rfl⟩
    · rintro ⟨x, y, he, rfl⟩
      cases x with
      | nil =>
        obtain ⟨b, rest, hc, hs⟩ := encodeChar_eq c
        simp [isBoundary, hc, hs.first]
      | cons d x =>
        obtain ⟨rfl, rfl⟩ := List.cons.inj he
        rw [byteLength_cons, isBoundary_cons]
        exact (ih _).2 ⟨x, y, rfl, rfl⟩

/-! ## Slices -/

/-- The octets from one offset to another. There is no slice that cuts a character, and none that
ends before it starts. -/
def slice? (bytes : List UInt8) (m n : Nat) : Option (List UInt8) :=
  if m ≤ n ∧ isBoundary bytes m ∧ isBoundary bytes n then some ((bytes.take n).drop m) else none

theorem take_encode (x y : List Char) : (encode (x ++ y)).take (byteLength x) = encode x := by
  rw [encode_append, ← length_encode, List.take_left]

theorem drop_encode (x y : List Char) : (encode (x ++ y)).drop (byteLength x) = encode y := by
  rw [encode_append, ← length_encode, List.drop_left]

/-- What stands between two places of a text is cut out of its octets. -/
theorem slice?_encode (x y z : List Char) :
    slice? (encode (x ++ y ++ z)) (byteLength x) (byteLength (x ++ y)) = some (encode y) := by
  have hx : isBoundary (encode (x ++ y ++ z)) (byteLength x) = true :=
    (isBoundary_encode _ _).2 ⟨x, y ++ z, List.append_assoc .., rfl⟩
  have hxy : isBoundary (encode (x ++ y ++ z)) (byteLength (x ++ y)) = true :=
    (isBoundary_encode _ _).2 ⟨x ++ y, z, rfl, rfl⟩
  have hle : byteLength x ≤ byteLength (x ++ y) := by simp
  rw [slice?, if_pos ⟨hle, hx, hxy⟩, take_encode, drop_encode]

end Utf8

/-! ## Inside a terminator -/

namespace Line

/-- A text ends in a carriage return and another starts with a line feed. -/
def Parts (x y : List Char) : Prop :=
  x.getLast? = some '\r' ∧ y.head? = some '\n'

instance (x y : List Char) : Decidable (Parts x y) :=
  inferInstanceAs (Decidable (_ ∧ _))

/-- Whether an offset stands behind the octet of a carriage return and before that of a line
feed. -/
def isInsidePair (bytes : List UInt8) (n : Nat) : Bool :=
  0 < n && bytes[n - 1]? = some 13 && bytes[n]? = some 10

theorem head?_encode (y : List Char) : (Utf8.encode y)[0]? = some 10 ↔ y.head? = some '\n' := by
  cases y with
  | nil => simp
  | cons c y =>
    obtain ⟨b, rest, hc, hs⟩ := Utf8.encodeChar_eq c
    simp only [Utf8.encode_cons, hc, List.cons_append, List.getElem?_cons_zero, List.head?_cons,
      Option.some.injEq]
    constructor
    · rintro rfl
      have hn : c.toNat = 10 := ((hs.ascii (by decide)).2).symm
      rw [← Char.ofNat_toNat c, hn]
    · rintro rfl
      exact (List.cons.inj hc).1.symm

theorem getLast?_encode (x : List Char) :
    (Utf8.encode x).getLast? = some 13 ↔ x.getLast? = some '\r' := by
  induction x using List.reverseRecOn with
  | nil => simp
  | append_singleton x c _ =>
    obtain ⟨b, rest, hc, -⟩ := Utf8.encodeChar_eq c
    have hlast : (Utf8.encode (x ++ [c])).getLast? = (Utf8.encodeChar c).getLast? := by
      rw [Utf8.encode_append, Utf8.encode_cons, Utf8.encode_nil, List.append_nil, hc,
        List.getLast?_append_cons]
    rw [hlast, List.getLast?_concat, Option.some.injEq]
    constructor
    · intro h
      have hn : c.toNat = 13 :=
        (Utf8.toNat_of_mem_encodeChar (by decide) (List.mem_of_getLast? h)).symm
      rw [← Char.ofNat_toNat c, hn]
    · rintro rfl
      rfl

/-- An offset is inside a terminator exactly if its two characters stand around it. -/
theorem isInsidePair_encode (x y : List Char) :
    isInsidePair (Utf8.encode (x ++ y)) (Utf8.byteLength x) = true ↔ Parts x y := by
  have hlength := Utf8.length_encode x
  have hright : (Utf8.encode (x ++ y))[Utf8.byteLength x]? = (Utf8.encode y)[0]? := by
    rw [Utf8.encode_append, List.getElem?_append_right (Nat.le_of_eq hlength), hlength,
      Nat.sub_self]
  by_cases hx : x = []
  · subst hx
    simp [isInsidePair, Parts]
  · have hpos := Utf8.byteLength_pos hx
    have hleft : (Utf8.encode (x ++ y))[Utf8.byteLength x - 1]? = (Utf8.encode x).getLast? := by
      rw [Utf8.encode_append, List.getElem?_append_left (by omega), List.getLast?_eq_getElem?,
        hlength]
    simp only [isInsidePair, hleft, hright, hpos, decide_true, Bool.true_and, Bool.and_eq_true,
      decide_eq_true_eq, head?_encode, getLast?_encode, Parts]

end Line

/-! ## Columns -/

namespace Utf16

theorem length_pos {s : List Char} (h : s ≠ []) : 0 < length s := by
  cases s with
  | nil => exact absurd rfl h
  | cons c s => exact Nat.add_pos_left (charLength_pos c) _

theorem split?_of_length (x y : List Char) : split? (x ++ y) (length x) = some (x, y) := by
  induction x with
  | nil => cases y <;> rfl
  | cons c x ih =>
    have hc := charLength_pos c
    obtain ⟨n, hn⟩ : ∃ n, charLength c + length x = n + 1 := ⟨charLength c + length x - 1, by omega⟩
    rw [length_cons, hn, List.cons_append, split?, if_pos (by omega), ← hn,
      Nat.add_sub_cancel_left, ih]
    rfl

theorem split?_zero (s : List Char) : split? s 0 = some ([], s) :=
  split?_of_length [] s

theorem split?_length (s : List Char) : split? s (length s) = some (s, []) := by
  simpa using split?_of_length s []

/-- A text is cut where what stands before has the given length. -/
theorem split?_eq_some {s x y : List Char} {n : Nat} :
    split? s n = some (x, y) ↔ s = x ++ y ∧ length x = n := by
  constructor
  · intro h
    induction s generalizing n x with
    | nil => cases n <;> simp_all [split?]
    | cons c s ih =>
      cases n with
      | zero =>
        obtain ⟨rfl, rfl⟩ := Prod.mk.inj (Option.some.inj h)
        exact ⟨rfl, rfl⟩
      | succ n =>
        rw [split?] at h
        split at h
        · next hc =>
          obtain ⟨⟨a, b⟩, hs, he⟩ := Option.bind_eq_some_iff.1 h
          obtain ⟨rfl, rfl⟩ := Prod.mk.inj (Option.some.inj he)
          obtain ⟨rfl, hn⟩ := ih hs
          exact ⟨rfl, by rw [length_cons, hn]; omega⟩
        · cases h
  · rintro ⟨rfl, rfl⟩
    exact split?_of_length x y

end Utf16

end LanguageClient
