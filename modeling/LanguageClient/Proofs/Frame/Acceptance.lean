import LanguageClient.Proofs.Frame.Grammar
import LanguageClient.Proofs.Number.Numeral

/-!
# What is accepted as a frame

The grammar of frames, said without the reader. A header block is a row of
header lines and the blank line behind them. A line with a colon is a field
(`IsField`); the first one whose name is `Content-Length` has to denote the
length of the body (`FirstLength`), whatever the other lines are. A header
block and a body make a frame (`IsFrame`) if that holds, the block is not too
long and the body is not either.

* `fieldOfLine?_eq_some_iff`, `length?_eq_ok_iff`: the reader finds that field
  and that length.
* `readFrame_accepts`: it reads a frame exactly where the grammar has one, and
  takes no byte more or less.
-/
namespace LanguageClient

/-! ## White space around a text -/

namespace Blank

variable {s t : List Char}

/-- A text is another one without the white space around it. -/
def Trims (s t : List Char) : Prop :=
  ∃ before after, s = before ++ t ++ after ∧ (∀ c ∈ before, isBlank c = true) ∧
    (∀ c ∈ after, isBlank c = true) ∧ (∀ c ∈ t.head?, isBlank c = false) ∧
    ∀ c ∈ t.getLast?, isBlank c = false

theorem trim_of_trims (h : Trims s t) : trim s = t := by
  obtain ⟨before, after, rfl, hbefore, hafter, hhead, hlast⟩ := h
  have hback : ∀ c ∈ after.reverse, isBlank c = true := fun c hc =>
    hafter c (List.mem_reverse.1 hc)
  have hend : trimStart (after.reverse ++ t.reverse) = t.reverse := by
    rw [trimStart_append hback]
    exact trimStart_eq_self fun c hc => hlast c (by rwa [List.head?_reverse] at hc)
  rw [trim, List.append_assoc, trimStart_append hbefore]
  cases t with
  | nil =>
    have hnil : trimStart after = [] := by
      rw [← List.append_nil after, trimStart_append hafter]
      rfl
    rw [List.nil_append, hnil]
    rfl
  | cons c t =>
    have hstart : trimStart ((c :: t) ++ after) = (c :: t) ++ after :=
      trimStart_eq_self fun d hd => hhead d (by simpa using hd)
    rw [hstart, List.reverse_append, hend, List.reverse_reverse]

theorem isBlank_head_trimStart (s : List Char) : ∀ c ∈ (trimStart s).head?, isBlank c = false := by
  intro c hc
  have h := List.head?_dropWhile_not isBlank s
  rw [trimStart] at hc
  rw [Option.mem_def.1 hc] at h
  exact h

theorem isBlank_of_mem_takeWhile (s : List Char) : ∀ c ∈ s.takeWhile isBlank, isBlank c = true :=
  List.all_eq_true.1 List.all_takeWhile

theorem trims_trim (s : List Char) : Trims s (trim s) := by
  have hleft : s.takeWhile isBlank ++ trimStart s = s := List.takeWhile_append_dropWhile
  have hright : trim s ++ ((trimStart s).reverse.takeWhile isBlank).reverse = trimStart s := by
    have hcut : (trimStart s).reverse.takeWhile isBlank ++ trimStart (trimStart s).reverse =
        (trimStart s).reverse := List.takeWhile_append_dropWhile
    rw [trim, ← List.reverse_append, hcut, List.reverse_reverse]
  refine ⟨s.takeWhile isBlank, ((trimStart s).reverse.takeWhile isBlank).reverse, ?_,
    isBlank_of_mem_takeWhile s, fun c hc => isBlank_of_mem_takeWhile _ c (List.mem_reverse.1 hc),
    fun c hc => ?_, fun c hc => ?_⟩
  · rw [List.append_assoc, hright, hleft]
  · refine isBlank_head_trimStart s c ?_
    rw [← hright, List.head?_append, Option.mem_def.1 hc]
    rfl
  · refine isBlank_head_trimStart (trimStart s).reverse c ?_
    rwa [trim, List.getLast?_reverse] at hc

theorem trim_eq_iff : trim s = t ↔ Trims s t :=
  ⟨fun h => h ▸ trims_trim s, trim_of_trims⟩

end Blank

open FrameReader RawFrame

/-! ## Fields -/

/-- The characters whose codes are some bytes. -/
def characters (bytes : List UInt8) : List Char :=
  bytes.map fun b => Char.ofNat b.toNat

/-- A line is a field: its first colon is between the name and the value, which may have white space
around them. -/
def IsField (line : List UInt8) (name value : List Char) : Prop :=
  ∃ left right, characters line = left ++ ':' :: right ∧ ':' ∉ left ∧
    Blank.Trims left name ∧ Blank.Trims right value

/-- A name is that of the field with the length, letter case aside. -/
def NamesLength (name : List Char) : Prop :=
  name.map Char.toLower = "content-length".toList

instance (name : List Char) : Decidable (NamesLength name) :=
  inferInstanceAs (Decidable (_ = _))

/-- The first field of some lines that is named so denotes this length, which is one that fits 64
bits. -/
inductive FirstLength : List (List UInt8) → Nat → Prop
  | here {line : List UInt8} {lines : List (List UInt8)} {name value : List Char} {n : Nat}
      (hfield : IsField line name value) (hname : NamesLength name)
      (hvalue : Numeral.Denotes value n) (hfits : n < 0x10000000000000000) :
      FirstLength (line :: lines) n
  | later {line : List UInt8} {lines : List (List UInt8)} {n : Nat}
      (hother : ∀ name value, IsField line name value → ¬ NamesLength name)
      (hlines : FirstLength lines n) : FirstLength (line :: lines) n

theorem fieldOfLine?_eq_some_iff {line : List UInt8} {name value : List Char} :
    fieldOfLine? line = some (String.ofList name, String.ofList value) ↔
      IsField line name value := by
  constructor
  · intro h
    unfold fieldOfLine? at h
    simp only at h
    split at h
    · cases h
    · next c right hright =>
      have hcolon : c = ':' := by
        have hhead := List.head?_dropWhile_not (fun c : Char => decide (c ≠ ':')) (characters line)
        rw [characters, hright] at hhead
        simpa using hhead
      subst hcolon
      obtain ⟨hname, hvalue⟩ := Prod.mk.inj (Option.some.inj h)
      refine ⟨_, right, ?_, ?_, Blank.trim_eq_iff.1 (String.ofList_injective hname),
        Blank.trim_eq_iff.1 (String.ofList_injective hvalue)⟩
      · rw [← hright, List.takeWhile_append_dropWhile, characters]
      · intro hmem
        simpa using List.all_eq_true.1 List.all_takeWhile ':' hmem
  · rintro ⟨left, right, htext, hcolon, hname, hvalue⟩
    have hleft : ∀ c ∈ left, decide (c ≠ ':') = true := fun c hc =>
      decide_eq_true fun h => hcolon (h ▸ hc)
    rw [characters] at htext
    simp only [fieldOfLine?, htext, List.dropWhile_append_of_pos hleft,
      List.takeWhile_append_of_pos hleft]
    simp [Blank.trim_of_trims hname, Blank.trim_of_trims hvalue]

theorem sameName_iff {name : List Char} :
    Frame.sameName (String.ofList name) "Content-Length" = true ↔ NamesLength name := by
  have hlower : "Content-Length".toList.map Char.toLower = "content-length".toList := by decide
  rw [Frame.sameName, NamesLength, String.toList_ofList, hlower, beq_iff_eq]

/-- A line that is no field, or has another name, does not give the length. -/
theorem length?_cons_other {line : List UInt8} {lines : List (List UInt8)}
    (h : ∀ name value, IsField line name value → ¬ NamesLength name) :
    length? (fieldsOf (line :: lines)) = length? (fieldsOf lines) := by
  have hfields : fieldsOf (line :: lines) = (fieldOfLine? line).toList ++ fieldsOf lines := rfl
  cases hfield : fieldOfLine? line with
  | none => rw [hfields, hfield, Option.toList_none, List.nil_append]
  | some field =>
    obtain ⟨name, value⟩ := field
    have hother : Frame.sameName name "Content-Length" = false := by
      rw [← String.ofList_toList (s := name), Bool.eq_false_iff, Ne, sameName_iff]
      refine h _ value.toList (fieldOfLine?_eq_some_iff.1 ?_)
      rw [hfield, String.ofList_toList, String.ofList_toList]
    rw [hfields, hfield, Option.toList_some, List.singleton_append, length?, length?,
      Frame.field?, Frame.field?, List.find?_cons_of_neg (by simp [hother])]

theorem length?_cons_named {line : List UInt8} {lines : List (List UInt8)} {name value : List Char}
    (hfield : IsField line name value) (hname : NamesLength name) {n : Nat} :
    length? (fieldsOf (line :: lines)) = .ok (some n) ↔
      Numeral.Denotes value n ∧ n < 0x10000000000000000 := by
  have hfields : fieldsOf (line :: lines) = (fieldOfLine? line).toList ++ fieldsOf lines := rfl
  have hfirst := fieldOfLine?_eq_some_iff.2 hfield
  rw [← sameName_iff] at hname
  rw [← Numeral.read_eq_ok_iff, hfields, hfirst, Option.toList_some, List.singleton_append, length?,
    Frame.field?, List.find?_cons_of_pos (by simpa using hname)]
  simp only [Option.map_some, String.toList_ofList]
  cases Numeral.read 0x10000000000000000 value <;> simp

theorem length?_eq_ok_iff {lines : List (List UInt8)} {n : Nat} :
    length? (fieldsOf lines) = .ok (some n) ↔ FirstLength lines n := by
  constructor
  · intro h
    induction lines with
    | nil => cases h
    | cons line lines ih =>
      by_cases hother : ∀ name value, IsField line name value → ¬ NamesLength name
      · rw [length?_cons_other hother] at h
        exact .later hother (ih h)
      · simp only [Classical.not_forall, Classical.not_not] at hother
        obtain ⟨name, value, hfield, hname⟩ := hother
        obtain ⟨hvalue, hfits⟩ := (length?_cons_named hfield hname).1 h
        exact .here hfield hname hvalue hfits
  · intro h
    induction h with
    | here hfield hname hvalue hfits =>
      exact (length?_cons_named hfield hname).2 ⟨hvalue, hfits⟩
    | later hother _ ih => rw [length?_cons_other hother, ih]

/-! ## Frames -/

/-- A header block and a body are a frame: header lines, none of them too long, and the blank line,
not too many in all; the first field with that name gives the length of the body, which is not too
large. -/
def IsFrame (header body : List UInt8) : Prop :=
  ∃ lines blank, header = (lines ++ [blank]).flatten ∧
    (∀ line ∈ lines, IsHeader line) ∧ isBlankLine blank = true ∧
    (lines ++ [blank]).length ≤ maxHeaderLines ∧
    FirstLength lines body.length ∧ body.length ≤ maxBody

theorem of_refusal?_eq_none {lines : List (List UInt8)} :
    ∀ {accepted : Nat}, refusal? accepted lines = none →
      (∀ line ∈ lines, line.length ≤ maxHeaderLine) ∧ lines.length ≤ accepted := by
  induction lines with
  | nil => exact fun _ => ⟨by simp, Nat.zero_le _⟩
  | cons line lines ih =>
    intro accepted h
    unfold refusal? at h
    split at h
    · cases h
    · next hlen =>
      cases accepted with
      | zero => cases h
      | succ accepted =>
        obtain ⟨hlines, hcount⟩ := ih h
        exact ⟨List.forall_mem_cons.2 ⟨Nat.le_of_not_lt hlen, hlines⟩, Nat.succ_le_succ hcount⟩

/-- The frames of the grammar are those that are well-formed to the reader. -/
theorem isFrame_iff {header body : List UInt8} : IsFrame header body ↔
    ∃ f : RawFrame, f.WellFormed ∧ f.block.flatten = header ∧ f.body = body := by
  constructor
  · rintro ⟨lines, blank, rfl, hlines, hblank, hcount, hlength, hfits⟩
    have hroom : lines.length < maxHeaderLines :=
      Nat.lt_of_succ_le (by simpa using hcount)
    refine ⟨framed hlines hblank body, ⟨⟨accepted_framed hlines hblank hroom body, ?_⟩, hfits⟩,
      rfl, rfl⟩
    exact length?_eq_ok_iff.2 hlength
  · rintro ⟨f, hf, rfl, rfl⟩
    obtain ⟨hlen, hcount⟩ := of_refusal?_eq_none hf.accepted
    refine ⟨f.lines, f.blank, rfl, fun line hline => ?_, f.isBlank, hcount,
      length?_eq_ok_iff.1 hf.length, hf.fits⟩
    obtain ⟨hline', hnot⟩ := f.isLine line hline
    exact ⟨hline', hnot, hlen line (List.mem_append_left _ hline)⟩

theorem Stream.Holds.unique {s : Stream} {bytes bytes' : List UInt8} (h : s.Holds bytes)
    (h' : s.Holds bytes') : bytes = bytes' := by
  obtain ⟨-, pieces, harrived, rfl⟩ := h
  obtain ⟨-, pieces', harrived', rfl⟩ := h'
  have hinj : Function.Injective Chunk.bytes := fun _ _ => Chunk.bytes.inj
  rw [harrived, List.map_inj_right hinj] at harrived'
  rw [harrived']

variable {s : Stream} {bytes : List UInt8}

theorem FrameRead.eq_failed_of_result? {r : FrameRead} {e : FrameError} {left : Stream}
    (h : r.result? = some (.error e, left)) : r = .failed e left := by
  cases r <;> cases h
  rfl

/-- The three ways in which the reading of a stream ends. -/
theorem readFrame_cases (hs : s.Holds bytes) :
    (bytes = [] ∧ ∃ left, readFrame .reject s = .finished left) ∨
    (bytes ≠ [] ∧ ∃ e left, readFrame .reject s = .failed e left) ∨
    ∃ (f : RawFrame) (more : List UInt8) (left : Stream), f.WellFormed ∧
      bytes = f.bytes ++ more ∧ readFrame .reject s = .frame f.frame left ∧ left.Holds more := by
  by_cases hempty : bytes = []
  · subst hempty
    obtain ⟨left, he, -⟩ := readFrame_end .reject hs
    exact .inl ⟨rfl, left, he⟩
  obtain hunfinished | ⟨piece, e, more, hrefused, rfl⟩ | ⟨f, more, hf, rfl⟩ := reading_cases bytes
  · obtain ⟨e, left, he, -⟩ := readFrame_unfinished hunfinished hempty hs
    exact .inr (.inl ⟨hempty, e, left, he⟩)
  · obtain ⟨left, he, -⟩ := gives_refused hrefused s more hs
    exact .inr (.inl ⟨hempty, e, left, FrameRead.eq_failed_of_result? he⟩)
  · obtain ⟨left, he, hleft⟩ := readFrame_wellFormed .reject hf hs
    exact .inr (.inr ⟨f, more, left, hf, rfl, he, hleft⟩)

/-- **The frame grammar.** A frame is read, and so many bytes are left, exactly if the bytes are a
header block and a body that make a frame, and those bytes behind them; what is read is that header
block and that body. The end is found exactly where there are no bytes. -/
theorem readFrame_accepts (hs : s.Holds bytes) :
    (∀ header body rest,
      (∃ f left, readFrame .reject s = .frame f left ∧ left.Holds rest ∧
        f.headerBytes = header ∧ f.body = body) ↔
      bytes = header ++ body ++ rest ∧ IsFrame header body) ∧
    ((∃ left, readFrame .reject s = .finished left) ↔ bytes = []) := by
  refine ⟨fun header body rest => ⟨?_, ?_⟩, ?_, ?_⟩
  · rintro ⟨f, left, he, hleft, rfl, rfl⟩
    obtain ⟨-, _, he'⟩ | ⟨-, _, _, he'⟩ | ⟨f', more, left', hf, rfl, he', hleft'⟩ :=
      readFrame_cases hs <;> rw [he] at he' <;> cases he'
    rw [hleft.unique hleft']
    exact ⟨rfl, isFrame_iff.2 ⟨f', hf, rfl, rfl⟩⟩
  · rintro ⟨rfl, hframe⟩
    obtain ⟨f, hf, rfl, rfl⟩ := isFrame_iff.1 hframe
    obtain ⟨left, he, hleft⟩ := readFrame_wellFormed .reject hf hs
    exact ⟨f.frame, left, he, hleft, rfl, rfl⟩
  · rintro ⟨left, he⟩
    obtain ⟨hempty, -⟩ | ⟨-, _, _, he'⟩ | ⟨_, _, _, -, -, he', -⟩ := readFrame_cases hs
    · exact hempty
    · rw [he] at he'
      cases he'
    · rw [he] at he'
      cases he'
  · rintro rfl
    obtain ⟨left, he, -⟩ := readFrame_end .reject hs
    exact ⟨left, he⟩

/-- The first field with the name counts, whatever the other lines are: here one without a colon
before it, and one with another length behind it. Its value has a no-break space and a tab around
it. -/
theorem readFrame_accepts_first_length :
    ∃ f left,
      readFrame .reject (.ofChunks [.bytes (Utf8.ofString "no colon\nCONTENT-LENGTH:"),
        .bytes (0xA0 :: Utf8.ofString "+2\t\r\nContent-Length: 9\r"),
        .bytes (Utf8.ofString "\n\n[]Con")]) = .frame f left ∧
      left.Holds (Utf8.ofString "Con") ∧
      f.headerBytes = Utf8.ofString "no colon\nCONTENT-LENGTH:" ++
        0xA0 :: Utf8.ofString "+2\t\r\nContent-Length: 9\r\n\n" ∧
      f.body = Utf8.ofString "[]" := by
  refine ((readFrame_accepts (Stream.holds_ofChunks
    [Utf8.ofString "no colon\nCONTENT-LENGTH:",
      0xA0 :: Utf8.ofString "+2\t\r\nContent-Length: 9\r",
      Utf8.ofString "\n\n[]Con"])).1 _ _ _).2 ⟨by decide, ?_⟩
  have hvalue : Numeral.Denotes "+2".toList 2 := ⟨['2'], by decide, by simp, .inr rfl, rfl⟩
  have hfield : IsField (Utf8.ofString "CONTENT-LENGTH:" ++ 0xA0 :: Utf8.ofString "+2\t\r\n")
      "CONTENT-LENGTH".toList "+2".toList :=
    ⟨"CONTENT-LENGTH".toList, '\u00A0' :: "+2\t\r\n".toList, by decide, by decide,
      Blank.trim_eq_iff.1 (by decide), Blank.trim_eq_iff.1 (by decide)⟩
  have hother : ∀ name value, IsField (Utf8.ofString "no colon\n") name value →
      ¬ NamesLength name := by
    rintro name value ⟨left, right, htext, -⟩ -
    have hcolon : ':' ∈ characters (Utf8.ofString "no colon\n") := by simp [htext]
    exact absurd hcolon (by decide)
  exact ⟨[Utf8.ofString "no colon\n",
      Utf8.ofString "CONTENT-LENGTH:" ++ 0xA0 :: Utf8.ofString "+2\t\r\n",
      Utf8.ofString "Content-Length: 9\r\n"], Utf8.ofString "\n", by decide, by decide, rfl,
    by decide, .later hother (.here hfield (by decide) hvalue (by decide)), by decide⟩

end LanguageClient
