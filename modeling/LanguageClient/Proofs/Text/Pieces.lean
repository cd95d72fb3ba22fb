import Mathlib
import LanguageClient.CommandLine.Caret
import LanguageClient.Proofs.Text.Positions

/-!
# Lines by walking and by splitting

There are two ways to the line of a position. A walk passes one terminator
after another (`Line.splitAt?`), and stands on a line also where the text is
at its end behind the last of them. Splitting gives the pieces of the text, and
a line is the content of a piece. `Line.at?` is what they agree on.

* `Position.offset?_start`: a piece starts where the walk to its number ends.
* `Position.linePrefixAt_eq`: the prefix of a line is cut at a boundary.
* `Position.walk_agrees_with_pieces`: what is known of a position on one way is
  known on the other.
-/
namespace LanguageClient

open Line (at? splitAt?)

/-- `linePrefix` by octets. There is none if a character would be cut. -/
def Position.linePrefixAt (p : Position) (text : List Char) : Option (List UInt8) :=
  let line := Line.content ((Line.split text)[p.line.toNat]?.getD [])
  let stop :=
    match Utf16.split? line p.character.toNat with
    | some (before, _) => Utf8.byteLength before
    | none => Utf8.byteLength line
  Utf8.slice? (Utf8.encode line) 0 stop

/-- The content of the piece with a number is that of the line, and a line that is no piece has
none. -/
theorem Line.content_getD_split (s : List Char) (n : Nat) :
    content ((split s)[n]?.getD []) = (at? s n).getD [] := by
  unfold at?
  split
  · next h =>
    rw [h.1, List.getElem?_eq_none (Nat.le_refl _)]
    rfl
  · cases (split s)[n]? <;> rfl

namespace Position

variable {text lines rest : List Char} {p : Position} {m n : Nat}

theorem linePrefix_eq_before {before after : List Char}
    (h : Utf16.split? ((at? text p.line.toNat).getD []) p.character.toNat = some (before, after)) :
    p.linePrefix text = before := by
  simp only [linePrefix, Line.content_getD_split, h]

theorem linePrefix_eq_line
    (h : Utf16.split? ((at? text p.line.toNat).getD []) p.character.toNat = none) :
    p.linePrefix text = (at? text p.line.toNat).getD [] := by
  simp only [linePrefix, Line.content_getD_split, h]

/-- No character is cut where the prefix of a line ends. -/
theorem linePrefixAt_eq (p : Position) (text : List Char) :
    p.linePrefixAt text = some (Utf8.encode (p.linePrefix text)) := by
  have hslice := fun before after => Utf8.slice?_encode [] before after
  simp only [List.nil_append, Utf8.byteLength_nil] at hslice
  simp only [linePrefixAt, linePrefix]
  cases hcut : Utf16.split? (Line.content ((Line.split text)[p.line.toNat]?.getD []))
      p.character.toNat with
  | none => simpa using hslice (Line.content ((Line.split text)[p.line.toNat]?.getD [])) []
  | some cut =>
    obtain ⟨before, after⟩ := cut
    rw [(Utf16.split?_eq_some.1 hcut).1]
    exact hslice before after

theorem offset?_start (l : UInt32) (text : List Char) : (⟨l, 0⟩ : Position).offset? text =
    (splitAt? l.toNat text).map fun (lines, _) => Utf8.byteLength lines := by
  rw [offset?_eq_walk]
  cases splitAt? l.toNat text with
  | none => rfl
  | some cut => simp [Utf16.split?_zero]

/-- A piece starts where the walk to its number ends. -/
theorem offset?_piece {l : UInt32} {piece : List Char}
    (h : (Line.split text)[l.toNat]? = some piece) :
    (⟨l, 0⟩ : Position).offset? text =
      some (Utf8.byteLength ((Line.split text).take l.toNat).flatten) := by
  have hlength := (List.getElem?_eq_some_iff.1 h).1
  rw [Line.length_split] at hlength
  have hle : l.toNat ≤ Line.breaks text := by
    split at hlength <;> omega
  rw [offset?_start, Line.splitAt?_split, if_pos hle]
  rfl

theorem isSome_offset? (p : Position) (text : List Char) : (p.offset? text).isSome ↔
    ∃ line, at? text p.line.toNat = some line ∧
      (Utf16.split? line p.character.toNat).isSome := by
  rw [offset?_eq_walk, Line.at?_eq]
  cases splitAt? p.line.toNat text <;> simp

/-- The prefix of a line reaches from the start of the line to the position. -/
theorem slice?_linePrefix (h : p.offset? text = some n) :
    ∃ m, (⟨p.line, 0⟩ : Position).offset? text = some m ∧
      Utf8.slice? (Utf8.encode text) m n = some (Utf8.encode (p.linePrefix text)) := by
  rw [offset?_eq_walk] at h
  obtain ⟨⟨lines, rest⟩, hlines, h⟩ := Option.bind_eq_some_iff.1 h
  obtain ⟨⟨before, after⟩, hcut, rfl⟩ := Option.map_eq_some_iff.1 h
  have hline : Utf16.split? ((at? text p.line.toNat).getD []) p.character.toNat =
      some (before, after) := by
    rw [Line.at?_eq, hlines]
    exact hcut
  have hbefore := linePrefix_eq_before hline
  have htext : text = lines ++ before ++ (after ++ rest.drop (Line.content rest).length) := by
    rw [List.append_assoc, ← List.append_assoc before, ← (Utf16.split?_eq_some.1 hcut).1,
      Line.content_append_drop]
    exact (Line.splitAt?_eq_some.1 hlines).1
  refine ⟨Utf8.byteLength lines, by rw [offset?_start, hlines]; rfl, ?_⟩
  rw [hbefore, htext]
  exact Utf8.slice?_encode ..

/-- The prefix of a line is the whole line if the position does not resolve. -/
theorem linePrefix_of_unresolved (h : p.offset? text = none) :
    p.linePrefix text = (at? text p.line.toNat).getD [] := by
  cases hcut : Utf16.split? ((at? text p.line.toNat).getD []) p.character.toNat with
  | none => exact linePrefix_eq_line hcut
  | some cut =>
    rw [linePrefix_eq_before hcut]
    cases hline : at? text p.line.toNat with
    | none =>
      rw [hline] at hcut
      exact (List.append_eq_nil_iff.1 (Utf16.split?_eq_some.1 hcut).1.symm).1
    | some line =>
      -- The column is on the line after all, and so the position resolves.
      rw [hline, Option.getD_some] at hcut
      have hsome := (isSome_offset? p text).2 ⟨line, hline, by simp [hcut]⟩
      rw [h] at hsome
      cases hsome

/-- **Walking and splitting.** The pieces of a text make it up, each starting where column zero of
its line is. A position resolves exactly if its line is a piece, or the empty one behind the last
terminator, and its column one of the content. What the command line takes for the text before it
is then the slice from the start of the line, and else the content of the line, or nothing; it is
found without cutting a character. -/
theorem walk_agrees_with_pieces (text : List Char) (p : Position) :
    (Line.split text).flatten = text ∧
    (∀ piece, (Line.split text)[p.line.toNat]? = some piece →
      (⟨p.line, 0⟩ : Position).offset? text =
        some (Utf8.byteLength ((Line.split text).take p.line.toNat).flatten)) ∧
    ((p.offset? text).isSome ↔ ∃ line, at? text p.line.toNat = some line ∧
      (Utf16.split? line p.character.toNat).isSome) ∧
    p.linePrefixAt text = some (Utf8.encode (p.linePrefix text)) ∧
    (∀ n, p.offset? text = some n → ∃ m, (⟨p.line, 0⟩ : Position).offset? text = some m ∧
      Utf8.slice? (Utf8.encode text) m n = some (Utf8.encode (p.linePrefix text))) ∧
    (p.offset? text = none → p.linePrefix text = (at? text p.line.toNat).getD []) :=
  ⟨Line.flatten_split text, fun _ => offset?_piece, isSome_offset? p text, linePrefixAt_eq p text,
    fun _ => slice?_linePrefix, linePrefix_of_unresolved⟩

theorem walk_agrees_with_pieces_behind_last :
    (Line.split "a😀\r\nb\r".toList)[2]? = none ∧
    ((⟨2, 0⟩ : Position).offset? "a😀\r\nb\r".toList).isSome ∧
    (⟨0, 2⟩ : Position).offset? "a😀\r\nb\r".toList = none ∧
    (⟨0, 2⟩ : Position).linePrefix "a😀\r\nb\r".toList = ['a', '😀'] := by
  obtain ⟨-, -, hresolves, -⟩ := walk_agrees_with_pieces "a😀\r\nb\r".toList ⟨2, 0⟩
  obtain ⟨-, -, -, -, -, hline⟩ := walk_agrees_with_pieces "a😀\r\nb\r".toList ⟨0, 2⟩
  refine ⟨by decide, hresolves.2 ⟨[], by decide, by decide⟩, by decide, ?_⟩
  rw [hline (by decide)]
  decide

end Position

end LanguageClient
