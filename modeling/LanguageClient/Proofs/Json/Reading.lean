import LanguageClient.Json.Source
import LanguageClient.Proofs.Json.Number
import LanguageClient.Proofs.Json.Text

/-!
# Printed JSON is read back

The tree that is read from a printed value has its shape: the same items in
the same order, the same names, texts and truth values; a number is what its
text denotes (`Json.source`). No value is printed as a text that cannot be
read.

* `readValue?_render`: a printed value is read up to its last byte.
* `read?_toBytes`: the bytes of a value are read as its tree.
-/
namespace LanguageClient.Json

variable {fuel : Nat} {s rest : List UInt8}

/-! ## The tree of a value -/

/-- What the text of a number is read as. -/
def numberSource (text : List Char) : Source :=
  .number ((readNumber? (Utf8.encode text)).bind fun read => read.1.value?)

mutual

/-- What a printed value is read as. -/
def source : Json → Source
  | null => .null
  | bool b => .bool b
  | int n => numberSource (renderInt n)
  | float x => numberSource x.render
  | str s => .text (some s)
  | arr items => .array (sourceItems items)
  | obj members => .object (sourceMembers members)

def sourceItems : List Json → List Source
  | [] => []
  | item :: items => item.source :: sourceItems items

def sourceMembers : List (String × Json) → List (Option String × Source)
  | [] => []
  | (name, value) :: members => (some name, value.source) :: sourceMembers members

end

theorem sourceItems_eq_map (items : List Json) : sourceItems items = items.map source := by
  induction items with
  | nil => rfl
  | cons item items ih => rw [sourceItems, ih, List.map_cons]

/-- An integer of 64 bits is read as itself. -/
theorem source_int {n : Int} (hn : FitsInt n) : (int n).source = .number (some (int n)) := by
  have hread := readNumber?_renderInt n follows_nil
  rw [List.append_nil] at hread
  rw [source, numberSource, hread, Option.bind_some, value?_renderInt hn]

/-! ## One step of the reader -/

namespace Source

attribute [local simp] readValue? readItems? readMembers?

theorem skipBlank_cons {b : UInt8} (h : isBlank b = false) : skipBlank (b :: s) = b :: s :=
  List.dropWhile_cons_of_neg (by simp [h])

/-- A text with which a value or a member can begin, so that it closes no list. -/
def Begins (s : List UInt8) : Prop :=
  ∃ b s', s = b :: s' ∧ isBlank b = false ∧ b ≠ 0x5D ∧ b ≠ 0x7D

theorem readValue?_null : readValue? (fuel + 1) (0x6E :: 0x75 :: 0x6C :: 0x6C :: rest) =
    some (.null, rest) := by
  rw [readValue?, skipBlank_cons rfl]
  rfl

theorem readValue?_true : readValue? (fuel + 1) (0x74 :: 0x72 :: 0x75 :: 0x65 :: rest) =
    some (.bool true, rest) := by
  rw [readValue?, skipBlank_cons rfl]
  rfl

theorem readValue?_false : readValue? (fuel + 1) (0x66 :: 0x61 :: 0x6C :: 0x73 :: 0x65 :: rest) =
    some (.bool false, rest) := by
  rw [readValue?, skipBlank_cons rfl]
  rfl

theorem readValue?_text {value : Option String} (h : readText? s = some (value, rest)) :
    readValue? (fuel + 1) (0x22 :: s) = some (.text value, rest) := by
  rw [readValue?, skipBlank_cons rfl]
  simp [h]

theorem readValue?_emptyArray : readValue? (fuel + 1) (0x5B :: 0x5D :: rest) =
    some (.array [], rest) := by
  rw [readValue?, skipBlank_cons rfl]
  simp [skipBlank_cons (show isBlank 0x5D = false from rfl)]

theorem readValue?_array {items : List Source} (hbegins : Begins s)
    (h : readItems? fuel s = some (items, rest)) :
    readValue? (fuel + 1) (0x5B :: s) = some (.array items, rest) := by
  obtain ⟨b, s', rfl, hblank, hbracket, -⟩ := hbegins
  rw [readValue?, skipBlank_cons rfl]
  simp [skipBlank_cons hblank, hbracket, h]

theorem readValue?_emptyObject : readValue? (fuel + 1) (0x7B :: 0x7D :: rest) =
    some (.object [], rest) := by
  rw [readValue?, skipBlank_cons rfl]
  simp [skipBlank_cons (show isBlank 0x7D = false from rfl)]

theorem readValue?_object {members : List (Option String × Source)} (hbegins : Begins s)
    (h : readMembers? fuel s = some (members, rest)) :
    readValue? (fuel + 1) (0x7B :: s) = some (.object members, rest) := by
  obtain ⟨b, s', rfl, hblank, -, hbrace⟩ := hbegins
  rw [readValue?, skipBlank_cons rfl]
  simp [skipBlank_cons hblank, hbrace, h]

/-- A number begins with its sign or a digit. -/
theorem head_of_readNumber? {parts : NumberParts} (h : readNumber? s = some (parts, rest)) :
    ∃ b s', s = b :: s' ∧ (b = 0x2D ∨ isDigit b = true) := by
  cases s with
  | nil => cases h
  | cons b s' =>
    refine ⟨b, s', rfl, Decidable.or_iff_not_imp_left.2 fun hsign => ?_⟩
    by_cases hdigit : isDigit b = true
    · exact hdigit
    · simp [readNumber?, hsign, readDigits, hdigit] at h

theorem ne_of_number {b : UInt8} (hb : b = 0x2D ∨ isDigit b = true) (other : UInt8)
    (hsign : other ≠ 0x2D) (hdigit : isDigit other = false) : b ≠ other := by
  rintro rfl
  rcases hb with hb | hb
  · exact hsign hb
  · rw [hdigit] at hb
    cases hb

theorem begins_of_number {b : UInt8} (hb : b = 0x2D ∨ isDigit b = true) : Begins (b :: s) := by
  have hother := ne_of_number hb
  refine ⟨b, s, rfl, ?_, hother 0x5D (by decide) rfl, hother 0x7D (by decide) rfl⟩
  simp [isBlank, hother 0x20 (by decide) rfl, hother 0x0A (by decide) rfl,
    hother 0x09 (by decide) rfl, hother 0x0D (by decide) rfl]

theorem readValue?_number {parts : NumberParts} (h : readNumber? s = some (parts, rest)) :
    readValue? (fuel + 1) s = some (.number parts.value?, rest) := by
  obtain ⟨b, s', rfl, hb⟩ := head_of_readNumber? h
  have hother := ne_of_number hb
  obtain ⟨_, _, hcons, hblank, -, -⟩ := begins_of_number (s := s') hb
  obtain ⟨rfl, rfl⟩ := List.cons.inj hcons
  rw [readValue?, skipBlank_cons hblank]
  simp [hother 0x6E (by decide) rfl, hother 0x74 (by decide) rfl, hother 0x66 (by decide) rfl,
    hother 0x22 (by decide) rfl, hother 0x5B (by decide) rfl, hother 0x7B (by decide) rfl, h]

theorem readItems?_last {item : Source} (h : readValue? fuel s = some (item, 0x5D :: rest)) :
    readItems? (fuel + 1) s = some ([item], rest) := by
  simp [h, skipBlank_cons (show isBlank 0x5D = false from rfl)]

theorem readItems?_cons {item : Source} {items : List Source} {more : List UInt8}
    (h : readValue? fuel s = some (item, 0x2C :: more))
    (hmore : readItems? fuel more = some (items, rest)) :
    readItems? (fuel + 1) s = some (item :: items, rest) := by
  simp [h, skipBlank_cons (show isBlank 0x2C = false from rfl), hmore]

theorem readMembers?_last {name : Option String} {value : Source} {text : List UInt8}
    (hname : readText? s = some (name, 0x3A :: text))
    (h : readValue? fuel text = some (value, 0x7D :: rest)) :
    readMembers? (fuel + 1) (0x22 :: s) = some ([(name, value)], rest) := by
  simp [hname, h, skipBlank_cons (show isBlank 0x22 = false from rfl),
    skipBlank_cons (show isBlank 0x3A = false from rfl),
    skipBlank_cons (show isBlank 0x7D = false from rfl)]

theorem readMembers?_cons {name : Option String} {value : Source} {text more : List UInt8}
    {members : List (Option String × Source)}
    (hname : readText? s = some (name, 0x3A :: text))
    (h : readValue? fuel text = some (value, 0x2C :: more))
    (hmore : readMembers? fuel more = some (members, rest)) :
    readMembers? (fuel + 1) (0x22 :: s) = some ((name, value) :: members, rest) := by
  simp [hname, h, hmore, skipBlank_cons (show isBlank 0x22 = false from rfl),
    skipBlank_cons (show isBlank 0x3A = false from rfl),
    skipBlank_cons (show isBlank 0x2C = false from rfl)]

end Source

/-! ## Printed values -/

open Source

theorem IsNumber.begins {text : List Char} (h : IsNumber text) (more : List UInt8) :
    Begins (Utf8.encode text ++ more) := by
  obtain ⟨parts, hread⟩ := h
  obtain ⟨b, s', htext, hb⟩ := head_of_readNumber? (hread [] follows_nil)
  rw [List.append_nil] at htext
  rw [htext]
  exact begins_of_number hb

theorem IsNumber.readValue? {text : List Char} (h : IsNumber text) (hrest : Follows rest) :
    Source.readValue? (fuel + 1) (Utf8.encode text ++ rest) = some (numberSource text, rest) := by
  obtain ⟨parts, hread⟩ := h
  have halone := hread [] follows_nil
  rw [List.append_nil] at halone
  rw [readValue?_number (hread rest hrest), numberSource, halone, Option.bind_some]

theorem encode_text (t : String) (more : List UInt8) : Utf8.encode (renderText t) ++ more =
    0x22 :: (Utf8.encode (t.toList.flatMap escapeChar) ++ 0x22 :: more) := by
  rw [renderText, Utf8.encode_cons, Utf8.encode_append, List.append_assoc, List.append_assoc]
  rfl

theorem encode_array (items : List Json) (more : List UInt8) :
    Utf8.encode (arr items).render ++ more =
      0x5B :: (Utf8.encode (renderItems items) ++ 0x5D :: more) := by
  rw [render, Utf8.encode_cons, Utf8.encode_append, List.append_assoc, List.append_assoc]
  rfl

theorem encode_object (members : List (String × Json)) (more : List UInt8) :
    Utf8.encode (obj members).render ++ more =
      0x7B :: (Utf8.encode (renderMembers members) ++ 0x7D :: more) := by
  rw [render, Utf8.encode_cons, Utf8.encode_append, List.append_assoc, List.append_assoc]
  rfl

theorem encode_items_cons (item next : Json) (items : List Json) (more : List UInt8) :
    Utf8.encode (renderItems (item :: next :: items)) ++ more =
      Utf8.encode item.render ++
        0x2C :: (Utf8.encode (renderItems (next :: items)) ++ more) := by
  rw [renderItems, Utf8.encode_append, Utf8.encode_cons, List.append_assoc, List.append_assoc]
  · rfl
  · simp

theorem encode_members_last (name : String) (value : Json) (more : List UInt8) :
    Utf8.encode (renderMembers [(name, value)]) ++ more =
      Utf8.encode (renderText name) ++ 0x3A :: (Utf8.encode value.render ++ more) := by
  rw [renderMembers, Utf8.encode_append, Utf8.encode_cons, List.append_assoc, List.append_assoc]
  rfl

theorem encode_members_cons (name : String) (value : Json) (next : String × Json)
    (members : List (String × Json)) (more : List UInt8) :
    Utf8.encode (renderMembers ((name, value) :: next :: members)) ++ more =
      Utf8.encode (renderText name) ++ 0x3A :: (Utf8.encode value.render ++
        0x2C :: (Utf8.encode (renderMembers (next :: members)) ++ more)) := by
  rw [renderMembers, Utf8.encode_append, Utf8.encode_cons, Utf8.encode_append, Utf8.encode_cons]
  · simp only [List.append_assoc]
    rfl
  · simp

/-- A printed value begins with none of the bytes that close a list. -/
theorem begins_render (j : Json) (more : List UInt8) : Begins (Utf8.encode j.render ++ more) := by
  cases j with
  | null => exact ⟨_, _, rfl, rfl, by decide, by decide⟩
  | bool b => cases b <;> exact ⟨_, _, rfl, rfl, by decide, by decide⟩
  | int n => exact (isNumber_renderInt n).begins more
  | float x => exact (isNumber_render x).begins more
  | str t => exact ⟨_, _, encode_text t more, rfl, by decide, by decide⟩
  | arr items => exact ⟨_, _, encode_array items more, rfl, by decide, by decide⟩
  | obj members => exact ⟨_, _, encode_object members more, rfl, by decide, by decide⟩

theorem begins_items (item : Json) (items : List Json) (more : List UInt8) :
    Begins (Utf8.encode (renderItems (item :: items)) ++ more) := by
  cases items with
  | nil => exact begins_render item more
  | cons next items =>
    rw [encode_items_cons]
    exact begins_render item _

theorem begins_members (name : String) (value : Json) (members : List (String × Json))
    (more : List UInt8) :
    Begins (Utf8.encode (renderMembers ((name, value) :: members)) ++ more) := by
  cases members with
  | nil =>
    rw [encode_members_last, encode_text]
    exact ⟨_, _, rfl, rfl, by decide, by decide⟩
  | cons next members =>
    rw [encode_members_cons, encode_text]
    exact ⟨_, _, rfl, rfl, by decide, by decide⟩

theorem length_render_pos (j : Json) : 0 < (Utf8.encode j.render).length := by
  obtain ⟨b, s', htext, -⟩ := begins_render j []
  rw [List.append_nil] at htext
  rw [htext]
  exact Nat.succ_pos _

mutual

/-- A printed value is read up to its last byte. -/
theorem readValue?_render : ∀ (j : Json) {fuel : Nat} {rest : List UInt8},
    2 * (Utf8.encode j.render).length ≤ fuel → Follows rest →
      readValue? fuel (Utf8.encode j.render ++ rest) = some (j.source, rest) := by
  intro j fuel rest hfuel hrest
  have hpos := length_render_pos j
  obtain ⟨fuel, rfl⟩ : ∃ more, fuel = more + 1 := ⟨fuel - 1, by omega⟩
  match j with
  | null => exact readValue?_null
  | bool true => exact readValue?_true
  | bool false => exact readValue?_false
  | int n => exact (isNumber_renderInt n).readValue? hrest
  | float x => exact (isNumber_render x).readValue? hrest
  | str t =>
    rw [show (str t).render = renderText t by rw [render], encode_text]
    exact readValue?_text (readText?_renderText t rest)
  | arr [] => exact readValue?_emptyArray
  | arr (item :: items) =>
    have hlength := congrArg List.length (encode_array (item :: items) [])
    rw [encode_array]
    refine readValue?_array (begins_items item items _) (readItems?_render (item :: items)
      (List.cons_ne_nil _ _) ?_)
    simp only [List.append_nil, List.length_cons, List.length_append, List.length_nil] at hlength
    omega
  | obj [] => exact readValue?_emptyObject
  | obj ((name, value) :: members) =>
    have hlength := congrArg List.length (encode_object ((name, value) :: members) [])
    rw [encode_object]
    refine readValue?_object (begins_members name value members _)
      (readMembers?_render ((name, value) :: members) (List.cons_ne_nil _ _) ?_)
    simp only [List.append_nil, List.length_cons, List.length_append, List.length_nil] at hlength
    omega

theorem readItems?_render : ∀ (items : List Json) {fuel : Nat} {rest : List UInt8},
    items ≠ [] → 2 * (Utf8.encode (renderItems items)).length < fuel →
      readItems? fuel (Utf8.encode (renderItems items) ++ 0x5D :: rest) =
        some (sourceItems items, rest) := by
  intro items fuel rest hne hfuel
  obtain ⟨fuel, rfl⟩ : ∃ more, fuel = more + 1 := ⟨fuel - 1, by omega⟩
  match items with
  | [] => exact absurd rfl hne
  | [item] =>
    exact readItems?_last (readValue?_render item (Nat.le_of_lt_succ hfuel) (follows_bracket rest))
  | item :: next :: items =>
    have hlength := congrArg List.length (encode_items_cons item next items [])
    simp only [List.append_nil, List.length_cons, List.length_append] at hlength
    rw [encode_items_cons]
    exact readItems?_cons (readValue?_render item (by omega) (follows_comma _))
      (readItems?_render (next :: items) (List.cons_ne_nil _ _) (by omega))

theorem readMembers?_render : ∀ (members : List (String × Json)) {fuel : Nat} {rest : List UInt8},
    members ≠ [] → 2 * (Utf8.encode (renderMembers members)).length < fuel →
      readMembers? fuel (Utf8.encode (renderMembers members) ++ 0x7D :: rest) =
        some (sourceMembers members, rest) := by
  intro members fuel rest hne hfuel
  obtain ⟨fuel, rfl⟩ : ∃ more, fuel = more + 1 := ⟨fuel - 1, by omega⟩
  match members with
  | [] => exact absurd rfl hne
  | [(name, value)] =>
    have hlength := congrArg List.length (encode_members_last name value [])
    simp only [List.append_nil, List.length_cons, List.length_append] at hlength
    rw [encode_members_last, encode_text]
    exact readMembers?_last (readText?_renderText name _)
      (readValue?_render value (by omega) (follows_brace rest))
  | (name, value) :: next :: members =>
    have hlength := congrArg List.length (encode_members_cons name value next members [])
    simp only [List.append_nil, List.length_cons, List.length_append] at hlength
    rw [encode_members_cons, encode_text]
    exact readMembers?_cons (readText?_renderText name _)
      (readValue?_render value (by omega) (follows_comma _))
      (readMembers?_render (next :: members) (List.cons_ne_nil _ _) (by omega))

end

/-- The bytes of a value are read as its tree. -/
theorem read?_toBytes (j : Json) : Source.read? j.toBytes = some j.source := by
  have hread : readValue? (2 * (Utf8.encode j.render).length + 2) (Utf8.encode j.render ++ []) =
      some (j.source, []) := readValue?_render j (Nat.le_add_right _ 2) follows_nil
  rw [List.append_nil] at hread
  rw [Source.read?, toBytes, hread]
  rfl

end LanguageClient.Json
