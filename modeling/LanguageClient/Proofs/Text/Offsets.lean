import Mathlib
import LanguageClient.Edit
import LanguageClient.Proofs.Text.Positions

/-!
# Edits by offsets

The text of an edit replaces the octets between two offsets, those of the
positions of its range. `ChangeEvent.applyAllAt` edits a text that way, where a
splice that cuts a character is no splice, and tells why an event does not
apply; the offsets are compared there, not the positions.

* `ChangeEvent.applyAllAt_spec`: that comes to the same, no character is ever
  cut, and what is rejected as reversed is a range of reversed positions.
* `Position.offsets_ordered`: between the positions of a text and the places in
  its octets, the order goes both ways.
-/
namespace LanguageClient

/-- The octets with those from one offset to another replaced. No character may be cut, and the
second offset may not be the lesser one. -/
def Utf8.replace? (bytes : List UInt8) (m n : Nat) (new : List UInt8) : Option (List UInt8) :=
  if m ≤ n ∧ isBoundary bytes m ∧ isBoundary bytes n then
    some (bytes.take m ++ new ++ bytes.drop n)
  else none

theorem Utf8.replace?_encode (x y z new : List Char) :
    replace? (encode (x ++ y ++ z)) (byteLength x) (byteLength (x ++ y)) (encode new) =
      some (encode (x ++ new ++ z)) := by
  have hx : isBoundary (encode (x ++ y ++ z)) (byteLength x) = true :=
    (isBoundary_encode _ _).2 ⟨x, y ++ z, List.append_assoc .., rfl⟩
  have hxy : isBoundary (encode (x ++ y ++ z)) (byteLength (x ++ y)) = true :=
    (isBoundary_encode _ _).2 ⟨x ++ y, z, rfl, rfl⟩
  have hle : byteLength x ≤ byteLength (x ++ y) := by simp
  rw [replace?, if_pos ⟨hle, hx, hxy⟩, drop_encode, List.append_assoc x, take_encode,
    ← encode_append, ← encode_append]

namespace ChangeEvent

/-- Why an event does not apply. -/
inductive Rejection where
  | unresolved
  | reversed
  | cut
  deriving DecidableEq, Repr

def spliceAt (text : List Char) (range : Range) (new : List Char) :
    Except Rejection (List Char) :=
  match range.start.offset? text, range.stop.offset? text with
  | some m, some n =>
    if n < m then .error .reversed
    else
      match (Utf8.replace? (Utf8.encode text) m n (Utf8.encode new)).bind Utf8.decode? with
      | some text => .ok text
      | none => .error .cut
  | _, _ => .error .unresolved

def applyAt (text : List Char) (e : ChangeEvent) : Except Rejection (List Char) :=
  match e.range with
  | none => .ok e.text.toList
  | some range => spliceAt text range e.text.toList

def applyAllAt (text : List Char) : List ChangeEvent → Except Rejection (List Char)
  | [] => .ok text
  | e :: events =>
    match applyAt text e with
    | .ok text => applyAllAt text events
    | .error reason => .error reason

/-- Both positions of an event's range resolve, the second before the first. -/
def IsReversed (text : List Char) (e : ChangeEvent) : Prop :=
  ∃ range, e.range = some range ∧ (range.start.offset? text).isSome ∧
    (range.stop.offset? text).isSome ∧ range.stop.compare range.start = .lt

variable {text new : List Char} {p q : Position} {r : Range} {m n : Nat}

/-- Two positions, one not behind the other, cut a text into three parts. -/
theorem exists_parts (hp : p.offset? text = some m) (hq : q.offset? text = some n) (h : m ≤ n) :
    ∃ x y z, text = x ++ y ++ z ∧ Utf8.byteLength x = m ∧ Utf8.byteLength (x ++ y) = n ∧
      p.split? text = some (x, y ++ z) ∧ q.split? text = some (x ++ y, z) := by
  obtain ⟨x, u, rfl, hx, hpx, rfl⟩ := Position.offset?_eq_some.1 hp
  obtain ⟨w, z, he, hw, hqw, rfl⟩ := Position.offset?_eq_some.1 hq
  obtain ⟨y, rfl, rfl⟩ : ∃ y, w = x ++ y ∧ u = y ++ z := by
    rcases List.append_eq_append_iff.1 he with ⟨y, hwx, hu⟩ | ⟨y, rfl, rfl⟩
    · exact ⟨y, hwx, hu⟩
    · obtain rfl : y = [] := by
        by_contra hy
        have := Utf8.byteLength_pos hy
        rw [Utf8.byteLength_append] at h
        omega
      exact ⟨[], by simp, by simp⟩
  exact ⟨x, y, z, (List.append_assoc ..).symm, rfl, rfl,
    Position.split?_eq_some.2 ⟨rfl, hx, hpx⟩, Position.split?_eq_some.2 ⟨he, hw, hqw⟩⟩

theorem splice?_parts {x y z : List Char} (hstart : r.start.split? text = some (x, y ++ z))
    (hstop : r.stop.split? text = some (x ++ y, z)) (new : List Char) :
    splice? text r new = some (x ++ new ++ z) := by
  simp [splice?, hstart, hstop]

/-- What stands between the positions of a range is replaced, in characters as in octets. -/
theorem spliceAt_ok (hstart : r.start.offset? text = some m) (hstop : r.stop.offset? text = some n)
    (h : m ≤ n) (new : List Char) :
    ∃ t, spliceAt text r new = .ok t ∧ splice? text r new = some t := by
  obtain ⟨x, y, z, htext, rfl, rfl, hx, hy⟩ := exists_parts hstart hstop h
  have hreplace := Utf8.replace?_encode x y z new
  rw [← htext] at hreplace
  refine ⟨x ++ new ++ z, ?_, splice?_parts hx hy new⟩
  simp only [spliceAt, hstart, hstop, if_neg (Nat.not_lt.2 h), hreplace, Option.bind_some,
    Utf8.decode?_encode]

theorem splice?_reversed (hstart : r.start.offset? text = some m)
    (hstop : r.stop.offset? text = some n) (h : n < m) (new : List Char) :
    splice? text r new = none := by
  obtain ⟨x, y, z, -, rfl, rfl, hx, hy⟩ := exists_parts hstop hstart (Nat.le_of_lt h)
  have hne : y ≠ [] := by
    rintro rfl
    simp at h
  simp [splice?, hx, hy, hne]

theorem split?_eq_none (h : p.offset? text = none) : p.split? text = none := by
  rw [Position.offset?] at h
  cases hsplit : p.split? text with
  | none => rfl
  | some cut =>
    rw [hsplit] at h
    cases h

/-- An event applies in both ways alike, or is rejected for its range. -/
theorem applyAt_cases (text : List Char) (e : ChangeEvent) :
    (∃ t, applyAt text e = .ok t ∧ applyTo? text e = some t ∧ ¬IsReversed text e) ∨
      (applyAt text e = .error .reversed ∧ applyTo? text e = none ∧ IsReversed text e) ∨
      (applyAt text e = .error .unresolved ∧ applyTo? text e = none ∧ ¬IsReversed text e) := by
  obtain ⟨range, new⟩ := e
  cases range with
  | none => exact .inl ⟨new.toList, rfl, rfl, by simp [IsReversed]⟩
  | some r =>
    cases hstart : r.start.offset? text with
    | none =>
      have hsplice : splice? text r new.toList = none := by
        simp [splice?, split?_eq_none hstart]
      exact .inr (.inr ⟨by simp [applyAt, spliceAt, hstart], hsplice,
        by simp [IsReversed, hstart]⟩)
    | some m =>
      cases hstop : r.stop.offset? text with
      | none =>
        have hsplice : splice? text r new.toList = none := by
          simp [splice?, split?_eq_none hstop]
        exact .inr (.inr ⟨by simp [applyAt, spliceAt, hstart, hstop], hsplice,
          by simp [IsReversed, hstop]⟩)
      | some n =>
        have hreversed : IsReversed text ⟨some r, new⟩ ↔ n < m := by
          simp [IsReversed, hstart, hstop, Position.compare_offset hstop hstart,
            Std.compare_eq_lt]
        rw [hreversed]
        rcases Nat.lt_or_ge n m with h | h
        · exact .inr (.inl ⟨by simp [applyAt, spliceAt, hstart, hstop, h],
            splice?_reversed hstart hstop h _, h⟩)
        · obtain ⟨t, ht, ht'⟩ := spliceAt_ok hstart hstop h new.toList
          exact .inl ⟨t, ht, ht', Nat.not_lt.2 h⟩

/-- By offsets, a list of events gives the same text or none; no character is cut; and the list is
rejected as reversed exactly if an event of it has a range of reversed positions, in the text that
those before it leave. -/
theorem applyAllAt_spec (text : List Char) (events : List ChangeEvent) :
    (applyAllAt text events).toOption = applyAll? text events ∧
      applyAllAt text events ≠ .error .cut ∧
      (applyAllAt text events = .error .reversed ↔ ∃ before e after mid,
        events = before ++ e :: after ∧ applyAll? text before = some mid ∧ IsReversed mid e) := by
  induction events generalizing text with
  | nil => simp [applyAllAt, applyAll?, Except.toOption]
  | cons e events ih =>
    rcases applyAt_cases text e with ⟨t, hat, hto, hr⟩ | ⟨hat, hto, hr⟩ | ⟨hat, hto, hr⟩
    · obtain ⟨hsame, hcut, hreversed⟩ := ih t
      simp only [applyAllAt, applyAll?, hat, hto]
      refine ⟨hsame, hcut, hreversed.trans ?_⟩
      constructor
      · rintro ⟨before, e', after, mid, rfl, hbefore, hr'⟩
        exact ⟨e :: before, e', after, mid, rfl, by simpa [applyAll?, hto] using hbefore, hr'⟩
      · rintro ⟨before, e', after, mid, he, hbefore, hr'⟩
        cases before with
        | nil =>
          obtain ⟨rfl, rfl⟩ := List.cons.inj he
          obtain rfl := Option.some.inj hbefore
          exact absurd hr' hr
        | cons d before =>
          obtain ⟨rfl, rfl⟩ := List.cons.inj he
          simp only [applyAll?, hto] at hbefore
          exact ⟨before, e', after, mid, rfl, hbefore, hr'⟩
    · simp only [applyAllAt, applyAll?, hat, hto]
      exact ⟨rfl, by simp, iff_of_true trivial ⟨[], e, events, text, rfl, rfl, hr⟩⟩
    · simp only [applyAllAt, applyAll?, hat, hto]
      refine ⟨rfl, by simp, iff_of_false (by simp) ?_⟩
      rintro ⟨before, e', after, mid, he, hbefore, hr'⟩
      cases before with
      | nil =>
        obtain ⟨rfl, rfl⟩ := List.cons.inj he
        obtain rfl := Option.some.inj hbefore
        exact hr hr'
      | cons d before =>
        obtain ⟨rfl, rfl⟩ := List.cons.inj he
        simp [applyAll?, hto] at hbefore

end ChangeEvent

namespace Position

variable {text : List Char}

/-- The places of positions are the boundaries that are not inside a terminator. -/
theorem exists_offset_iff (hlines : (Line.split text).length < 2 ^ 32)
    (hcolumns : ∀ line ∈ Line.split text, Utf16.length (Line.content line) < 2 ^ 32) (n : Nat) :
    (∃ p : Position, p.offset? text = some n) ↔ Utf8.isBoundary (Utf8.encode text) n = true ∧
      Line.isInsidePair (Utf8.encode text) n = false := by
  rw [Utf8.isBoundary_encode]
  constructor
  · rintro ⟨p, hp⟩
    obtain ⟨x, y, rfl, hparts, -, rfl⟩ := offset?_eq_some.1 hp
    refine ⟨⟨x, y, rfl, rfl⟩, ?_⟩
    rwa [← Bool.not_eq_true, Line.isInsidePair_encode]
  · rintro ⟨⟨x, y, rfl, rfl⟩, hinside⟩
    rw [← Bool.not_eq_true, Line.isInsidePair_encode] at hinside
    obtain ⟨p, hp⟩ := exists_stands hinside hlines hcolumns
    exact ⟨p, offset?_eq_some.2 ⟨x, y, rfl, hinside, hp, rfl⟩⟩

/-- **Positions and offsets.** In a text whose lines and columns can be counted in 32 bits, the
positions that resolve and the boundaries of characters that are not inside a terminator stand for
each other, in the same order. So a list of edits that goes by the offsets never cuts a character,
and rejects a range as reversed exactly if its positions are. -/
theorem offsets_ordered (hlines : (Line.split text).length < 2 ^ 32)
    (hcolumns : ∀ line ∈ Line.split text, Utf16.length (Line.content line) < 2 ^ 32) :
    (∀ n, (∃ p : Position, p.offset? text = some n) ↔
      Utf8.isBoundary (Utf8.encode text) n = true ∧
        Line.isInsidePair (Utf8.encode text) n = false) ∧
    (∀ (p q : Position) m n, p.offset? text = some m → q.offset? text = some n →
      (p = q ↔ m = n) ∧ (p.compare q = .lt ↔ m < n)) ∧
    ∀ events, (ChangeEvent.applyAllAt text events).toOption = ChangeEvent.applyAll? text events ∧
      ChangeEvent.applyAllAt text events ≠ .error .cut ∧
      (ChangeEvent.applyAllAt text events = .error .reversed ↔ ∃ before e after mid,
        events = before ++ e :: after ∧ ChangeEvent.applyAll? text before = some mid ∧
          ChangeEvent.IsReversed mid e) := by
  refine ⟨exists_offset_iff hlines hcolumns, fun p q m n hp hq => ⟨?_, ?_⟩,
    ChangeEvent.applyAllAt_spec text⟩
  · constructor
    · rintro rfl
      exact Option.some.inj (hp.symm.trans hq)
    · rintro rfl
      exact offset_inj hp hq
  · rw [compare_offset hp hq, Std.compare_eq_lt]

theorem offsets_ordered_pairs :
    (Line.split "😀\r\n\rb\r".toList).length < 2 ^ 32 ∧
    (∀ line ∈ Line.split "😀\r\n\rb\r".toList, Utf16.length (Line.content line) < 2 ^ 32) ∧
    (¬∃ p : Position, p.offset? "😀\r\n\rb\r".toList = some 5) ∧
    (∃ p : Position, p.offset? "😀\r\n\rb\r".toList = some 7) ∧
    ChangeEvent.applyAllAt "😀\r\n\rb\r".toList [.ranged ⟨⟨2, 1⟩, ⟨0, 2⟩⟩ "x"] =
      .error .reversed := by
  have hlines : (Line.split "😀\r\n\rb\r".toList).length < 2 ^ 32 := by decide
  have hcolumns : ∀ line ∈ Line.split "😀\r\n\rb\r".toList,
      Utf16.length (Line.content line) < 2 ^ 32 := by decide
  obtain ⟨hplaces, -, hedits⟩ := offsets_ordered hlines hcolumns
  refine ⟨hlines, hcolumns, fun h => absurd ((hplaces 5).1 h) (by decide),
    (hplaces 7).2 (by decide), (hedits _).2.2.2 ?_⟩
  exact ⟨[], _, [], _, rfl, rfl, _, rfl, by decide, by decide, by decide⟩

end Position

end LanguageClient
