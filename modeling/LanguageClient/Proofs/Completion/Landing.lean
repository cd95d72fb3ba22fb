import Mathlib
import LanguageClient.Completion.Insertion
import LanguageClient.Proofs.Completion.Words
import LanguageClient.Proofs.Text.Advance
import LanguageClient.Proofs.Text.Offsets

/-!
# Where the caret is after an insertion

The range of an insertion and the position of the caret behind it are found
from the caret's line alone, without the document. The edit is then made to
the document, and the caret has to be where the new text ends there, or
between the parentheses if these were added.

Columns are subtracted twice: the length of the word before the caret from the
caret's, and one from the column behind the parentheses. `insertionChecked?`
fails where such a difference is below zero.

* `covers_word`: without an edit of its own, an item replaces the word around
  the caret.
* `insertionChecked?_eq`: no difference is below zero.
* `Writes.lands`: the caret is where the new text ends, or before the parenthesis.
* `caret_lands_behind_text`: all of this for an insertion.
-/
namespace LanguageClient.Completion

open Line (Parts at?)
open ChangeEvent (applyAll?)

/-! ## Checked columns -/

/-- The difference of two columns, if it is not below zero. -/
def sub? (a b : UInt32) : Option UInt32 :=
  if b ≤ a then some (a - b) else none

/-- Whether parentheses are added to a text that replaces a range. -/
def addsParens (item : CompletionItem) (line : List Char) (caret : Position) (callParens : Bool)
    (range : Range) (text : String) (isSnippet : Bool) : Bool :=
  callParens && !isSnippet && item.kind.any ItemKind.isCallable && !text.toList.contains '(' &&
    !parenFollows line caret.line range.stop

/-- `plain?` with a checked difference. -/
def plainChecked? (item : CompletionItem) (line : List Char) (caret : Position) (words : WordSet) :
    Option (Option (Range × String × Bool)) :=
  match item.textEdit with
  | some edit => some (some (edit.range, edit.newText, item.isSnippet))
  | none =>
    match Utf16.split? line caret.character.toNat with
    | none => some none
    | some (left, right) => do
      let start ← sub? caret.character (UInt32.ofNat (Utf16.length (words.before left)))
      let after := UInt32.ofNat (Utf16.length (words.after right))
      let range : Range := ⟨⟨caret.line, start⟩, ⟨caret.line, caret.character + after⟩⟩
      match item.insertText with
      | some text => some (some (range, if item.isSnippet then item.label else text, false))
      | none => some (some (range, item.label, false))

/-- `insertion?` with checked differences. -/
def insertionChecked? (item : CompletionItem) (line : List Char) (caret : Position)
    (words : WordSet) (callParens : Bool) : Option (Option Insertion) := do
  match ← plainChecked? item line caret words with
  | none => some none
  | some (range, text, isSnippet) =>
    let parens := addsParens item line caret callParens range text isSnippet
    let text := if parens then text ++ "()" else text
    let reached := range.start.after text.toList
    let character ← if parens then sub? reached.character 1 else some reached.character
    some (some ⟨range, text, isSnippet, { reached with character }, item.additionalTextEdits⟩)

/-! ## The word around a caret -/

/-- The range of the word between `left` and `right` that a caret is in. -/
def wordRange (words : WordSet) (caret : Position) (left right : List Char) : Range :=
  ⟨⟨caret.line, caret.character - UInt32.ofNat (Utf16.length (words.before left))⟩,
    ⟨caret.line, caret.character + UInt32.ofNat (Utf16.length (words.after right))⟩⟩

/-- A range has all of the word that a caret is in or at, on the caret's line, and resolves in the
text. -/
def CoversWord (words : WordSet) (text line : List Char) (caret : Position)
    (range : Range) : Prop :=
  ∃ x run y m, line = x ++ run ++ y ∧ words.IsRun x run y ∧
    Utf16.length x ≤ caret.character.toNat ∧
    caret.character.toNat ≤ Utf16.length (x ++ run) ∧
    range.start.line = caret.line ∧ range.start.character.toNat = Utf16.length x ∧
    range.stop.line = caret.line ∧ range.stop.character.toNat = Utf16.length (x ++ run) ∧
    range.start.offset? text = some m ∧ range.stop.offset? text = some (m + Utf8.byteLength run)

variable {item : CompletionItem} {text line left right : List Char} {caret : Position}
  {words : WordSet} {callParens : Bool} {i : Insertion} {c : UInt32}

theorem sub?_of_le {a b : UInt32} (h : b ≤ a) : sub? a b = some (a - b) :=
  if_pos h

/-- The word before a caret is a part of what is before the caret. -/
theorem column_eq_stem_add (words : WordSet)
    (hcut : Utf16.split? line c.toNat = some (left, right)) :
    c.toNat = Utf16.length (words.stem left) +
      (UInt32.ofNat (Utf16.length (words.before left))).toNat := by
  have hc := (Utf16.split?_eq_some.1 hcut).2
  rw [← words.stem_append_before left, Utf16.length_append] at hc
  rw [UInt32.toNat_ofNat_of_lt' (Nat.lt_of_le_of_lt (by omega) c.toNat_lt), hc]

theorem before_le (words : WordSet) (hcut : Utf16.split? line c.toNat = some (left, right)) :
    UInt32.ofNat (Utf16.length (words.before left)) ≤ c := by
  rw [UInt32.le_iff_toNat_le, column_eq_stem_add words hcut]
  exact Nat.le_add_left _ _

theorem toNat_start (words : WordSet) (hcut : Utf16.split? line c.toNat = some (left, right)) :
    (c - UInt32.ofNat (Utf16.length (words.before left))).toNat =
      Utf16.length (words.stem left) := by
  rw [UInt32.toNat_sub_of_le _ _ (before_le words hcut), column_eq_stem_add words hcut,
    Nat.add_sub_cancel]

theorem toNat_stop (words : WordSet) (hcut : Utf16.split? line c.toNat = some (left, right))
    (hunits : Utf16.length line < 2 ^ 32) :
    (c + UInt32.ofNat (Utf16.length (words.after right))).toNat =
      Utf16.length (left ++ words.after right) := by
  obtain ⟨rfl, hc⟩ := Utf16.split?_eq_some.1 hcut
  have hlength := congrArg Utf16.length (words.after_append_dropWhile right)
  rw [Utf16.length_append] at hlength hunits
  rw [UInt32.toNat_add, UInt32.toNat_ofNat', Nat.add_mod_mod, Utf16.length_append, hc]
  exact Nat.mod_eq_of_lt (by omega)

/-- A column of a line resolves in the text if the line is there. -/
theorem offset?_column {l : UInt32} {lines rest x y : List Char}
    (hwalk : Line.splitAt? l.toNat text = some (lines, rest)) (hrest : Line.content rest = x ++ y)
    (hc : c.toNat = Utf16.length x) :
    (⟨l, c⟩ : Position).offset? text = some (Utf8.byteLength (lines ++ x)) := by
  have hcut := Utf16.split?_eq_some.2 ⟨hrest, hc.symm⟩
  rw [Position.offset?_eq_walk, hwalk, Option.bind_some]
  simp only [hcut, Option.map_some]

theorem covers_word (words : WordSet) (hline : at? text caret.line.toNat = some line)
    (hunits : Utf16.length line < 2 ^ 32)
    (hcut : Utf16.split? line caret.character.toNat = some (left, right)) :
    CoversWord words text line caret (wordRange words caret left right) := by
  obtain ⟨rfl, hcaret⟩ := Utf16.split?_eq_some.1 hcut
  have hstart := toNat_start words hcut
  have hstop := toNat_stop words hcut hunits
  rw [Line.at?_eq, Option.map_eq_some_iff] at hline
  obtain ⟨⟨lines, rest⟩, hwalk, hrest⟩ := hline
  have hleft := words.stem_append_before left
  have hsplit : left ++ right = words.stem left ++ (words.before left ++ words.after right) ++
      right.dropWhile words.isWord := by
    rw [← List.append_assoc, hleft, List.append_assoc, words.after_append_dropWhile]
  have hrun : words.stem left ++ (words.before left ++ words.after right) =
      left ++ words.after right := by
    rw [← List.append_assoc, hleft]
  refine ⟨_, _, _, Utf8.byteLength (lines ++ words.stem left), hsplit,
    words.isRun_around left right, ?_, ?_, rfl, hstart, rfl, ?_, ?_, ?_⟩
  · have := congrArg Utf16.length hleft
    rw [Utf16.length_append] at this
    omega
  · rw [hrun, Utf16.length_append]
    omega
  · rw [hrun]
    exact hstop
  · exact offset?_column hwalk (hrest.trans (hsplit.trans (List.append_assoc ..))) hstart
  · rw [← hrun] at hstop
    refine (offset?_column hwalk (hrest.trans hsplit) hstop).trans ?_
    rw [← List.append_assoc, Utf8.byteLength_append]

/-! ## What an insertion is -/

theorem insertion?_eq_none :
    insertion? item line caret words callParens = none ↔ plain? item line caret words = none := by
  cases h : plain? item line caret words <;> simp [insertion?, h]

/-- The insertion of a text at a range, with or without parentheses added to it. -/
def finish (item : CompletionItem) (range : Range) (base : String) (isSnippet parens : Bool) :
    Insertion :=
  let text := if parens then base ++ "()" else base
  let reached := range.start.after text.toList
  let caret := if parens then { reached with character := reached.character - 1 } else reached
  ⟨range, text, isSnippet, caret, item.additionalTextEdits⟩

theorem insertion?_of_plain {range : Range} {base : String} {isSnippet : Bool}
    (callParens : Bool) (h : plain? item line caret words = some (range, base, isSnippet)) :
    insertion? item line caret words callParens = some (finish item range base isSnippet
      (addsParens item line caret callParens range base isSnippet)) := by
  simp only [insertion?, h, Option.bind_eq_bind, Option.bind_some]
  rfl

/-- An insertion writes a text, with parentheses behind it or without, and has the caret
accordingly. -/
structure Writes (i : Insertion) (base : String) (parens : Bool) : Prop where
  text : i.text = base ++ (if parens = true then "()" else "")
  caret : i.caret = if parens = true then
      { i.range.start.after i.text.toList with
        character := (i.range.start.after i.text.toList).character - 1 }
    else i.range.start.after i.text.toList

theorem writes_finish (item : CompletionItem) (range : Range) (base : String)
    (isSnippet parens : Bool) : Writes (finish item range base isSnippet parens) base parens :=
  ⟨by cases parens <;> simp [finish], rfl⟩

theorem insertion?_eq_some (h : insertion? item line caret words callParens = some i) :
    ∃ base parens, plain? item line caret words = some (i.range, base, i.isSnippet) ∧
      Writes i base parens := by
  cases hplain : plain? item line caret words with
  | none =>
    rw [insertion?_eq_none.2 hplain] at h
    cases h
  | some plain =>
    obtain ⟨range, base, isSnippet⟩ := plain
    rw [insertion?_of_plain callParens hplain] at h
    obtain rfl := Option.some.inj h
    exact ⟨base, _, rfl, writes_finish ..⟩

theorem plain?_off_line (hown : item.textEdit = none)
    (hcut : Utf16.split? line caret.character.toNat = none) :
    plain? item line caret words = none := by
  simp [plain?, hown, hcut]

theorem plain?_on_line (words : WordSet) (hown : item.textEdit = none)
    (hcut : Utf16.split? line caret.character.toNat = some (left, right)) :
    ∃ base, plain? item line caret words =
      some (wordRange words caret left right, base, false) := by
  cases hinsert : item.insertText <;> simp [plain?, hown, hcut, hinsert, wordRange]

/-! ## No difference is below zero -/

theorem plainChecked?_eq (item : CompletionItem) (line : List Char) (caret : Position)
    (words : WordSet) :
    plainChecked? item line caret words = some (plain? item line caret words) := by
  cases hown : item.textEdit with
  | some edit => simp [plainChecked?, plain?, hown]
  | none =>
    cases hcut : Utf16.split? line caret.character.toNat with
    | none => simp [plainChecked?, plain?, hown, hcut]
    | some cut =>
      have hsub := sub?_of_le (before_le words hcut)
      cases hi : item.insertText <;> simp [plainChecked?, plain?, hown, hcut, hsub, hi]

theorem unbroken_parens : Line.Unbroken ['(', ')'] := by
  simp [Line.Unbroken, Line.isBreak]

/-- There is a column before the one behind parentheses. -/
theorem one_le_of_fits {p : Position} {base : String} (h : p.Fits (base ++ "()").toList) :
    1 ≤ (p.after (base ++ "()").toList).character := by
  have htext : (base ++ "()").toList = base.toList ++ ['(', ')'] := String.toList_append
  have hlength : Utf16.length ['(', ')'] = 2 := rfl
  have hone : (1 : UInt32).toNat = 1 := rfl
  rw [UInt32.le_iff_toNat_le, h.toNat_character, htext,
    Line.tail_append_unbroken _ unbroken_parens, Utf16.length_append]
  omega

theorem insertionChecked?_of_plain {range : Range} {base : String} {isSnippet : Bool}
    (h : plain? item line caret words = some (range, base, isSnippet))
    (hfits : range.start.Fits (finish item range base isSnippet
      (addsParens item line caret callParens range base isSnippet)).text.toList) :
    insertionChecked? item line caret words callParens = some (some (finish item range base
      isSnippet (addsParens item line caret callParens range base isSnippet))) := by
  simp only [insertionChecked?, plainChecked?_eq, h, Option.bind_eq_bind, Option.bind_some]
  generalize addsParens item line caret callParens range base isSnippet = parens at hfits
  cases parens with
  | false => rfl
  | true =>
    have hsub := sub?_of_le (one_le_of_fits hfits)
    simp only [if_true, hsub, Option.bind_some]
    rfl

/-- No column that is subtracted is the greater one. -/
theorem insertionChecked?_eq
    (hfits : ∀ i, insertion? item line caret words callParens = some i →
      i.range.start.Fits i.text.toList) :
    insertionChecked? item line caret words callParens =
      some (insertion? item line caret words callParens) := by
  cases hplain : plain? item line caret words with
  | none => simp [insertionChecked?, plainChecked?_eq, hplain, insertion?]
  | some plain =>
    obtain ⟨range, base, isSnippet⟩ := plain
    have hinsertion := insertion?_of_plain callParens hplain
    rw [hinsertion]
    exact insertionChecked?_of_plain hplain (hfits _ hinsertion)

/-! ## Where the caret is -/

variable {base : String} {parens : Bool} {x z : List Char}

/-- The new caret stands behind the new text, or before the parenthesis that ends it. -/
theorem Writes.stands (hi : Writes i base parens) (hstart : i.range.start.Stands x)
    (hparts : ¬Parts x i.text.toList) (hfits : i.range.start.Fits i.text.toList) :
    ∃ reached, i.text.toList = reached ++ (if parens = true then [')'] else []) ∧
      i.caret.Stands (x ++ reached) := by
  have hend := hstart.after hparts hfits
  cases parens with
  | false =>
    refine ⟨i.text.toList, (List.append_nil _).symm, ?_⟩
    rw [hi.caret]
    exact hend
  | true =>
    have htext : i.text.toList = base.toList ++ ['('] ++ [')'] := by
      simp [hi.text]
    refine ⟨_, htext, ?_⟩
    -- The position behind the text is one column behind that of the caret.
    have hbehind : (i.range.start.after i.text.toList).Stands
        (x ++ (base.toList ++ ['(']) ++ [')']) := by
      rwa [List.append_assoc, ← htext]
    rw [hi.caret]
    exact hbehind.pred (by decide) (by decide)

/-- In the new document that is where the new text ends, or one octet before. -/
theorem Writes.offset? (hi : Writes i base parens) (hstart : i.range.start.Stands x)
    (hfits : i.range.start.Fits i.text.toList) (hleft : ¬Parts x (i.text.toList ++ z))
    (hright : ¬Parts (x ++ i.text.toList) z) :
    i.caret.offset? (x ++ i.text.toList ++ z) =
      some (Utf8.byteLength x + Utf8.byteLength i.text.toList -
        (if parens = true then 1 else 0)) := by
  obtain ⟨reached, htext, hcaret⟩ :=
    hi.stands hstart (Line.not_parts_of_append_right hleft) hfits
  rw [htext] at hright ⊢
  refine Position.offset?_eq_some.2
    ⟨x ++ reached, (if parens = true then [')'] else []) ++ z, by simp, ?_, hcaret, ?_⟩
  · cases parens with
    | false => simpa using hright
    | true => simp [Parts]
  · cases parens with
    | false => simp
    | true =>
      have hone : Utf8.byteLength [')'] = 1 := rfl
      simp only [Utf8.byteLength_append, hone, if_true]
      omega

/-- The edit of an insertion can be made if its range resolves, and the caret then is where the
new text ends, or one octet before. -/
theorem Writes.lands {m n : Nat} (hi : Writes i base parens)
    (hfits : i.range.start.Fits i.text.toList) (hm : i.range.start.offset? text = some m)
    (hn : i.range.stop.offset? text = some n)
    (hordered : i.range.stop.compare i.range.start ≠ .lt) :
    ∃ new, applyAll? text [.ranged i.range i.text] = some new ∧
      (Line.isInsidePair (Utf8.encode new) m = false →
        Line.isInsidePair (Utf8.encode new) (m + Utf8.byteLength i.text.toList) = false →
        i.caret.offset? new =
          some (m + Utf8.byteLength i.text.toList - (if parens = true then 1 else 0))) := by
  have hle : m ≤ n := by
    rw [Position.compare_offset hn hm, ne_eq, Std.compare_eq_lt] at hordered
    omega
  obtain ⟨x, y, z, -, rfl, rfl, hx, hy⟩ := ChangeEvent.exists_parts hm hn hle
  refine ⟨x ++ i.text.toList ++ z, ?_, ?_⟩
  · have hsplice := ChangeEvent.splice?_parts hx hy i.text.toList
    simp only [applyAll?, ChangeEvent.applyTo?, ChangeEvent.ranged, hsplice]
  · intro hleft hright
    rw [List.append_assoc, ← Bool.not_eq_true, Line.isInsidePair_encode] at hleft
    rw [← Utf8.byteLength_append, ← Bool.not_eq_true, Line.isInsidePair_encode] at hright
    exact hi.offset? (Position.split?_eq_some.1 hx).2.2 hfits hleft hright

theorem insertion?_own_eq_none (hown : item.textEdit = none) :
    insertion? item line caret words callParens = none ↔
      Utf16.split? line caret.character.toNat = none := by
  rw [insertion?_eq_none]
  cases hcut : Utf16.split? line caret.character.toNat with
  | none => exact iff_of_true (plain?_off_line hown hcut) rfl
  | some cut =>
    obtain ⟨base, hplain⟩ := plain?_on_line words hown hcut
    simp [hplain]

theorem insertion?_own_covers (hline : at? text caret.line.toNat = some line)
    (hunits : Utf16.length line < 2 ^ 32) (hown : item.textEdit = none)
    (hi : insertion? item line caret words callParens = some i) :
    CoversWord words text line caret i.range := by
  obtain ⟨base, parens, hplain, -⟩ := insertion?_eq_some hi
  cases hcut : Utf16.split? line caret.character.toNat with
  | none =>
    rw [plain?_off_line hown hcut] at hplain
    cases hplain
  | some cut =>
    obtain ⟨base', hword⟩ := plain?_on_line words hown hcut
    obtain ⟨hrange, -⟩ := Prod.mk.inj (Option.some.inj (hword.symm.trans hplain))
    rw [← hrange]
    exact covers_word words hline hunits hcut

/-- **The caret.** An insertion whose range resolves in the document can be made, and its caret
resolves in the new document where the new text ends, but before the closing parenthesis if there
is one of the insertion's own; unless an end of the new text is inside a terminator then. An item
without an edit of its own replaces the word around the caret, whenever the caret is on the line.
The columns never go below zero. -/
theorem caret_lands_behind_text (item : CompletionItem) (caret : Position) (words : WordSet)
    (callParens : Bool) (hline : at? text caret.line.toNat = some line)
    (hunits : Utf16.length line < 2 ^ 32) :
    (∀ i, insertion? item line caret words callParens = some i →
      i.range.start.Fits i.text.toList → ∃ base parens,
        plain? item line caret words = some (i.range, base, i.isSnippet) ∧
        i.text = base ++ (if parens = true then "()" else "") ∧
        ∀ m n, i.range.start.offset? text = some m → i.range.stop.offset? text = some n →
          i.range.stop.compare i.range.start ≠ .lt →
          ∃ new, applyAll? text [.ranged i.range i.text] = some new ∧
            (Line.isInsidePair (Utf8.encode new) m = false →
              Line.isInsidePair (Utf8.encode new) (m + Utf8.byteLength i.text.toList) = false →
              i.caret.offset? new =
                some (m + Utf8.byteLength i.text.toList - (if parens = true then 1 else 0)))) ∧
    (item.textEdit = none →
      (insertion? item line caret words callParens = none ↔
        Utf16.split? line caret.character.toNat = none) ∧
      ∀ i, insertion? item line caret words callParens = some i →
        CoversWord words text line caret i.range) ∧
    ((∀ i, insertion? item line caret words callParens = some i →
        i.range.start.Fits i.text.toList) →
      insertionChecked? item line caret words callParens =
        some (insertion? item line caret words callParens)) := by
  refine ⟨?_, ?_, insertionChecked?_eq⟩
  · intro i hi hfits
    obtain ⟨base, parens, hplain, hwrites⟩ := insertion?_eq_some hi
    exact ⟨base, parens, hplain, hwrites.text, fun m n => hwrites.lands hfits⟩
  · intro hown
    exact ⟨insertion?_own_eq_none hown, fun i => insertion?_own_covers hline hunits hown⟩

/-- A call of two lines, inserted behind a line that a pair ends. -/
def twoLineCall : CompletionItem :=
  { (default : CompletionItem) with label := "g\r\nh", kind := some .function }

theorem caret_lands_behind_text_call : ∃ i,
    at? "a\r\n😀 fo.b\n".toList 1 = some "😀 fo.b".toList ∧
    Utf16.length "😀 fo.b".toList < 2 ^ 32 ∧
    insertion? twoLineCall "😀 fo.b".toList ⟨1, 5⟩ .standard true = some i ∧
    i.range.start.Fits i.text.toList ∧
    CoversWord .standard "a\r\n😀 fo.b\n".toList "😀 fo.b".toList ⟨1, 5⟩ i.range ∧
    applyAll? "a\r\n😀 fo.b\n".toList [.ranged i.range i.text] =
      some "a\r\n😀 g\r\nh().b\n".toList ∧
    i.caret.offset? "a\r\n😀 g\r\nh().b\n".toList = some 13 := by
  have hline : at? "a\r\n😀 fo.b\n".toList 1 = some "😀 fo.b".toList := by decide
  have hunits : Utf16.length "😀 fo.b".toList < 2 ^ 32 := by decide
  obtain ⟨hlands, hown, -⟩ :=
    caret_lands_behind_text twoLineCall ⟨1, 5⟩ .standard true hline hunits
  let i : Insertion := ⟨⟨⟨1, 3⟩, ⟨1, 5⟩⟩, "g\r\nh()", false, ⟨2, 2⟩, []⟩
  have hi : insertion? twoLineCall "😀 fo.b".toList ⟨1, 5⟩ .standard true = some i := by decide
  have hfits : i.range.start.Fits i.text.toList := ⟨by decide, by decide⟩
  have hnew : applyAll? "a\r\n😀 fo.b\n".toList [.ranged i.range i.text] =
      some "a\r\n😀 g\r\nh().b\n".toList := by decide
  refine ⟨i, hline, hunits, hi, hfits, (hown rfl).2 i hi, hnew, ?_⟩
  obtain ⟨base, parens, hplain, htext, hcaret⟩ := hlands i hi hfits
  obtain rfl : base = "g\r\nh" := by
    have hlabel : plain? twoLineCall "😀 fo.b".toList ⟨1, 5⟩ .standard =
        some (i.range, "g\r\nh", false) := by decide
    exact congrArg (fun plain : Range × String × Bool => plain.2.1)
      (Option.some.inj (hplain.symm.trans hlabel))
  obtain rfl : parens = true := by
    cases parens with
    | true => rfl
    | false => exact absurd htext (by decide)
  obtain ⟨new, happly, hoffset⟩ := hcaret 8 10 (by decide) (by decide) (by decide)
  obtain rfl := Option.some.inj (hnew.symm.trans happly)
  exact (hoffset (by decide) (by decide)).trans (by decide)

end LanguageClient.Completion
