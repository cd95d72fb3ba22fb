import LanguageClient.Frame.Reader
import LanguageClient.Proofs.Frame.Bytes

/-!
# Whole frames in a stream

A `RawFrame` is a frame as it stands in a stream: its header lines, the blank
line behind them and its body. What the reader makes of one is decided by
these pieces alone. Its block is accepted, or refused at a line that is too
long or one too many (`refusal?`); an accepted block gives a length or does
not. `rejection?` is the error of a frame that is not taken, with the bytes of
it that are left in the stream.

* `readFrame_wellFormed`: a frame that gives the length of its body is read whole.
* `readFrame_oversized`: one whose body is too long is skipped whole.
* `readFrame_rejected`: one that is rejected leaves exactly its rest.
-/
namespace LanguageClient

open FrameReader

/-- Whether some bytes are a line: a line feed ends them, and there is no other. -/
def IsLine (line : List UInt8) : Prop :=
  line.getLast? = some 0x0A ∧ 0x0A ∉ line.dropLast

instance (line : List UInt8) : Decidable (IsLine line) :=
  inferInstanceAs (Decidable (_ ∧ _))

theorem isBlankLine_end : isBlankLine [0x0D, 0x0A] = true := rfl

/-- A frame as it stands in a stream. -/
structure RawFrame where
  lines : List (List UInt8)
  blank : List UInt8
  body : List UInt8
  isLine : ∀ line ∈ lines, IsLine line ∧ isBlankLine line = false
  isBlank : isBlankLine blank = true

namespace RawFrame

/-- The lines of the header block, the blank one included. -/
def block (f : RawFrame) : List (List UInt8) :=
  f.lines ++ [f.blank]

def bytes (f : RawFrame) : List UInt8 :=
  f.block.flatten ++ f.body

def fieldsOf (lines : List (List UInt8)) : List (String × String) :=
  lines.flatMap fun line => (fieldOfLine? line).toList

def fields (f : RawFrame) : List (String × String) :=
  fieldsOf f.lines

/-- Where reading some lines stops, if at most `accepted` of them are taken: the error and what is
left of the lines. -/
def refusal? : Nat → List (List UInt8) → Option (FrameError × List UInt8)
  | _, [] => none
  | accepted, line :: lines =>
    if maxHeaderLine < line.length then
      some (.lineTooLong, line.drop (maxHeaderLine + 1) ++ lines.flatten)
    else
      match accepted with
      | 0 => some (.tooManyHeaders, lines.flatten)
      | accepted + 1 => refusal? accepted lines

/-- A block whose lines are all short enough is accepted if there are not too many of them. -/
theorem refusal?_eq_none {lines : List (List UInt8)}
    (hlines : ∀ line ∈ lines, line.length ≤ maxHeaderLine) :
    ∀ {accepted : Nat}, lines.length ≤ accepted → refusal? accepted lines = none := by
  induction lines with
  | nil => exact fun _ => by simp [refusal?]
  | cons line lines ih =>
    intro accepted hcount
    cases accepted with
    | zero => cases hcount
    | succ accepted =>
      rw [refusal?, if_neg (Nat.not_lt.2 (hlines line (by simp)))]
      exact ih (fun l hl => hlines l (List.mem_cons_of_mem _ hl)) (Nat.le_of_succ_le_succ hcount)

/-- Why a frame is rejected, if it is, and what is left of it in the stream. -/
def rejection? (f : RawFrame) : Option (FrameError × List UInt8) :=
  match refusal? maxHeaderLines f.block with
  | some (e, left) => some (e, left ++ f.body)
  | none =>
    match length? f.fields with
    | .error e => some (e, f.body)
    | .ok none => some (.missingLength, f.body)
    | .ok (some _) => none

def frame (f : RawFrame) : Frame :=
  ⟨f.fields, f.block.flatten, f.body⟩

/-- The header block is accepted and gives the length of the body. -/
structure GivesLength (f : RawFrame) : Prop where
  accepted : refusal? maxHeaderLines f.block = none
  length : length? f.fields = .ok (some f.body.length)

/-- A frame that is well-formed: it gives its length, which is not too large. -/
structure WellFormed (f : RawFrame) : Prop extends f.GivesLength where
  fits : f.body.length ≤ maxBody

instance (f : RawFrame) : Decidable f.WellFormed :=
  decidable_of_iff (refusal? maxHeaderLines f.block = none ∧
      length? f.fields = .ok (some f.body.length) ∧ f.body.length ≤ maxBody)
    ⟨fun ⟨h, h', h''⟩ => ⟨⟨h, h'⟩, h''⟩, fun h => ⟨h.accepted, h.length, h.fits⟩⟩

end RawFrame

/-! ## Lines -/

theorem IsLine.ne_nil {line : List UInt8} (h : IsLine line) : line ≠ [] := by
  rintro rfl
  cases h.1

theorem isLine_append {text : List UInt8} (h : 0x0A ∉ text) : IsLine (text ++ [0x0A]) := by
  simp [IsLine, h]

theorem IsLine.exists_text {line : List UInt8} (h : IsLine line) :
    ∃ text, 0x0A ∉ text ∧ line = text ++ [0x0A] :=
  ⟨line.dropLast, h.2, by
    have he := List.dropLast_concat_getLast h.ne_nil
    rwa [Option.some.inj ((List.getLast?_eq_some_getLast h.ne_nil).symm.trans h.1), eq_comm] at he⟩

/-- A blank line is a line. -/
theorem isLine_of_blank {line : List UInt8} (h : isBlankLine line = true) : IsLine line := by
  simp only [isBlankLine, Bool.or_eq_true, beq_iff_eq] at h
  rcases h with rfl | rfl <;> decide

theorem firstLine_append_feed {text : List UInt8} (h : 0x0A ∉ text) (limit : Nat)
    (more : List UInt8) :
    Stream.firstLine limit (text ++ 0x0A :: more) = (text ++ [0x0A]).take limit := by
  induction text generalizing limit with
  | nil => cases limit <;> simp [Stream.firstLine]
  | cons b text ih =>
    cases limit with
    | zero => rfl
    | succ limit =>
      have hb : b ≠ 0x0A := fun e => h (by simp [e])
      simp [Stream.firstLine, hb, ih (fun hm => h (List.mem_cons_of_mem _ hm))]

/-- The first line of what begins with a line is that line, cut at the limit. -/
theorem firstLine_append {line : List UInt8} (h : IsLine line) (limit : Nat) (more : List UInt8) :
    Stream.firstLine limit (line ++ more) = line.take limit := by
  obtain ⟨text, htext, rfl⟩ := h.exists_text
  rw [List.append_assoc]
  exact firstLine_append_feed htext limit more

variable {s : Stream} {line more : List UInt8}

/-- A header line that is not too long is read whole. -/
theorem readLine_line (h : s.Holds (line ++ more)) (hline : IsLine line)
    (hlen : line.length ≤ maxHeaderLine) :
    ∃ rest, s.readLine (maxHeaderLine + 1) = .ok line rest ∧ rest.Holds more := by
  obtain ⟨rest, he, hrest⟩ := Stream.readLine_holds h (maxHeaderLine + 1)
  rw [firstLine_append hline, List.take_of_length_le (by omega)] at he hrest
  exact ⟨rest, he, by simpa using hrest⟩

/-- The bytes that are read of a line that is too long. -/
def IsOverlong (text : List UInt8) : Prop :=
  text.length = maxHeaderLine + 1 ∧ 0x0A ∉ text.dropLast

theorem firstLine_overlong {text : List UInt8} (hfeed : 0x0A ∉ text.dropLast)
    (more : List UInt8) : Stream.firstLine text.length (text ++ more) = text := by
  induction text with
  | nil => rfl
  | cons b text ih =>
    cases text with
    | nil => simp [Stream.firstLine]
    | cons c text =>
      rw [List.dropLast_cons_of_ne_nil (by simp), List.mem_cons, not_or] at hfeed
      have hb : b ≠ 0x0A := fun e => hfeed.1 e.symm
      rw [List.cons_append, List.length_cons, Stream.firstLine, if_neg hb, ih hfeed.2]

theorem isOverlong_take (hline : IsLine line) (hlen : maxHeaderLine < line.length) :
    IsOverlong (line.take (maxHeaderLine + 1)) := by
  refine ⟨by rw [List.length_take]; omega, fun hfeed => hline.2 ?_⟩
  rw [List.dropLast_eq_take, List.take_take] at hfeed
  rw [List.dropLast_eq_take]
  refine (List.take_prefix_take_left ?_).mem hfeed
  rw [List.length_take]
  omega

/-- One that is too long is read to just beyond the longest that is accepted. -/
theorem readLine_overlong {text : List UInt8} (h : s.Holds (text ++ more))
    (htext : IsOverlong text) :
    ∃ rest, s.readLine (maxHeaderLine + 1) = .ok text rest ∧ rest.Holds more := by
  obtain ⟨rest, he, hrest⟩ := Stream.readLine_holds h (maxHeaderLine + 1)
  have hfirst := firstLine_overlong htext.2 more
  rw [htext.1] at hfirst
  rw [hfirst] at he hrest
  exact ⟨rest, he, by simpa using hrest⟩

/-! ## Header blocks -/

open RawFrame

/-- A line that is too long ends the reading of the block. -/
theorem readHeaders_overlong {text : List UInt8} (h : Headers) (accepted : Nat)
    (hs : s.Holds (text ++ more)) (htext : IsOverlong text) :
    ∃ rest, readHeaders h accepted s = .failed .lineTooLong rest ∧ rest.Holds more := by
  obtain ⟨rest, he, hrest⟩ := readLine_overlong hs htext
  have hlong : maxHeaderLine < text.length := htext.1 ▸ Nat.lt_succ_self _
  exact ⟨rest, by cases accepted <;> simp only [readHeaders, he, if_pos hlong], hrest⟩

theorem readHeaders_long (h : Headers) (accepted : Nat) (hs : s.Holds (line ++ more))
    (hline : IsLine line) (hlen : maxHeaderLine < line.length) :
    ∃ rest, readHeaders h accepted s = .failed .lineTooLong rest ∧
      rest.Holds (line.drop (maxHeaderLine + 1) ++ more) := by
  rw [← List.take_append_drop (maxHeaderLine + 1) line, List.append_assoc] at hs
  exact readHeaders_overlong h accepted hs (isOverlong_take hline hlen)

/-- So does a line behind the last one that is accepted. -/
theorem readHeaders_extra (h : Headers) (hs : s.Holds (line ++ more)) (hline : IsLine line)
    (hlen : line.length ≤ maxHeaderLine) :
    ∃ rest, readHeaders h 0 s = .failed .tooManyHeaders rest ∧ rest.Holds more := by
  obtain ⟨rest, he, hrest⟩ := readLine_line hs hline hlen
  exact ⟨rest, by simp only [readHeaders, he, if_neg (Nat.not_lt.2 hlen)], hrest⟩

/-- Behind a header line the reading goes on. -/
theorem readHeaders_line (h : Headers) (accepted : Nat) (hs : s.Holds (line ++ more))
    (hline : IsLine line) (hnot : isBlankLine line = false) (hlen : line.length ≤ maxHeaderLine) :
    ∃ rest, readHeaders h (accepted + 1) s = readHeaders (h.add line) accepted rest ∧
      rest.Holds more := by
  obtain ⟨rest, he, hrest⟩ := readLine_line hs hline hlen
  have hne : line.isEmpty = false := List.isEmpty_eq_false_iff.2 hline.ne_nil
  refine ⟨rest, ?_, hrest⟩
  simp only [readHeaders, he, if_neg (Nat.not_lt.2 hlen), hne, hnot, Bool.false_eq_true, if_false]

theorem length_blank {blank : List UInt8} (h : isBlankLine blank = true) :
    blank.length ≤ maxHeaderLine := by
  simp only [isBlankLine, Bool.or_eq_true, beq_iff_eq] at h
  rcases h with rfl | rfl <;> decide

/-- The blank line ends the block. -/
theorem readHeaders_blank (h : Headers) (accepted : Nat) (hs : s.Holds (line ++ more))
    (hblank : isBlankLine line = true) :
    ∃ rest, readHeaders h (accepted + 1) s = .headers ⟨h.fields, h.bytes ++ line⟩ rest ∧
      rest.Holds more := by
  have hline := isLine_of_blank hblank
  have hlen := length_blank hblank
  obtain ⟨rest, he, hrest⟩ := readLine_line hs hline hlen
  have hne : line.isEmpty = false := List.isEmpty_eq_false_iff.2 hline.ne_nil
  refine ⟨rest, ?_, hrest⟩
  simp only [readHeaders, he, if_neg (Nat.not_lt.2 hlen), hne, hblank, Bool.false_eq_true,
    if_false, if_true]

variable {lines : List (List UInt8)} {blank : List UInt8}

/-- A block that is refused leaves what `refusal?` says. -/
theorem readHeaders_refused {e : FrameError} {left : List UInt8} (hblank : isBlankLine blank = true)
    (accepted : Nat) :
    ∀ {s : Stream} (h : Headers) {lines : List (List UInt8)},
      (∀ line ∈ lines, IsLine line ∧ isBlankLine line = false) →
      refusal? accepted (lines ++ [blank]) = some (e, left) →
      s.Holds ((lines ++ [blank]).flatten ++ more) →
      ∃ rest, readHeaders h accepted s = .failed e rest ∧ rest.Holds (left ++ more) := by
  induction accepted with
  | zero =>
    intro s h lines hlines hrefused hs
    obtain ⟨line, tail, hcons, hline⟩ :
        ∃ line tail, lines ++ [blank] = line :: tail ∧ IsLine line := by
      cases lines with
      | nil => exact ⟨blank, [], rfl, isLine_of_blank hblank⟩
      | cons line lines => exact ⟨line, lines ++ [blank], rfl, (hlines line (by simp)).1⟩
    rw [hcons, List.flatten_cons, List.append_assoc] at hs
    rw [hcons, refusal?] at hrefused
    split at hrefused
    · next hlen =>
      cases hrefused
      rw [List.append_assoc]
      exact readHeaders_long h 0 hs hline hlen
    · next hlen =>
      cases hrefused
      exact readHeaders_extra h hs hline (Nat.le_of_not_lt hlen)
  | succ accepted ih =>
    intro s h lines hlines hrefused hs
    cases lines with
    | nil => simp [refusal?, Nat.not_lt.2 (length_blank hblank)] at hrefused
    | cons line lines =>
      obtain ⟨hline, hnot⟩ := hlines line (by simp)
      rw [List.cons_append, List.flatten_cons, List.append_assoc] at hs
      rw [List.cons_append, refusal?] at hrefused
      split at hrefused
      · next hlen =>
        cases hrefused
        rw [List.append_assoc]
        exact readHeaders_long h _ hs hline hlen
      · next hlen =>
        obtain ⟨rest, he, hrest⟩ :=
          readHeaders_line h accepted hs hline hnot (Nat.le_of_not_lt hlen)
        rw [he]
        exact ih _ (fun l hl => hlines l (List.mem_cons_of_mem _ hl)) hrefused hrest

/-- A block that is not refused is read whole. -/
theorem readHeaders_accepted (hblank : isBlankLine blank = true) (accepted : Nat) :
    ∀ {s : Stream} (h : Headers) {lines : List (List UInt8)},
      (∀ line ∈ lines, IsLine line ∧ isBlankLine line = false) →
      refusal? accepted (lines ++ [blank]) = none →
      s.Holds ((lines ++ [blank]).flatten ++ more) →
      ∃ rest, readHeaders h accepted s =
          .headers ⟨h.fields ++ fieldsOf lines, h.bytes ++ (lines ++ [blank]).flatten⟩ rest ∧
        rest.Holds more := by
  induction accepted with
  | zero =>
    intro s h lines _ hrefused _
    cases lines with
    | nil => simp [refusal?, Nat.not_lt.2 (length_blank hblank)] at hrefused
    | cons line lines =>
      rw [List.cons_append, refusal?] at hrefused
      split at hrefused <;> cases hrefused
  | succ accepted ih =>
    intro s h lines hlines hrefused hs
    cases lines with
    | nil =>
      rw [List.nil_append, List.flatten_singleton] at hs
      simpa [fieldsOf] using readHeaders_blank h accepted hs hblank
    | cons line lines =>
      obtain ⟨hline, hnot⟩ := hlines line (by simp)
      rw [List.cons_append, List.flatten_cons, List.append_assoc] at hs
      rw [List.cons_append, refusal?] at hrefused
      split at hrefused
      · cases hrefused
      · next hlen =>
        obtain ⟨rest, he, hrest⟩ :=
          readHeaders_line h accepted hs hline hnot (Nat.le_of_not_lt hlen)
        obtain ⟨rest', he', hrest'⟩ :=
          ih (h.add line) (fun l hl => hlines l (List.mem_cons_of_mem _ hl)) hrefused hrest
        refine ⟨rest', ?_, hrest'⟩
        rw [he, he']
        simp [Headers.add, fieldsOf, List.append_assoc]

/-! ## Frames -/

variable {f : RawFrame}

theorem RawFrame.bytes_ne_nil (f : RawFrame) : f.bytes ≠ [] := by
  have hblank := (isLine_of_blank f.isBlank).ne_nil
  simp [RawFrame.bytes, block, hblank]

theorem readHeaders_frame (hacc : refusal? maxHeaderLines f.block = none)
    (hs : s.Holds (f.bytes ++ more)) :
    ∃ rest, readHeaders ⟨[], []⟩ maxHeaderLines s = .headers ⟨f.fields, f.block.flatten⟩ rest ∧
      rest.Holds (f.body ++ more) := by
  rw [RawFrame.bytes, List.append_assoc] at hs
  exact readHeaders_accepted f.isBlank maxHeaderLines ⟨[], []⟩ f.isLine hacc hs

/-- A well-formed frame is read whole. -/
theorem readFrame_wellFormed (policy : MissingLength) (hf : f.WellFormed)
    (hs : s.Holds (f.bytes ++ more)) :
    ∃ rest, readFrame policy s = .frame f.frame rest ∧ rest.Holds more := by
  obtain ⟨rest, he, hrest⟩ := readHeaders_frame hf.accepted hs
  obtain ⟨rest', he', hrest'⟩ := Stream.readExactly_holds hrest f.body.length
  rw [List.take_left] at he'
  rw [List.drop_left] at hrest'
  refine ⟨rest', ?_, hrest'⟩
  simp [readFrame, he, hf.length, Nat.not_lt.2 hf.fits, readBody, he', frame]

/-- A frame whose body is too long is skipped whole. -/
theorem readFrame_oversized (policy : MissingLength) (hf : f.GivesLength)
    (hlong : maxBody < f.body.length) (hs : s.Holds (f.bytes ++ more)) :
    ∃ rest, readFrame policy s = .failed (.oversized f.body.length) rest ∧ rest.Holds more := by
  obtain ⟨rest, he, hrest⟩ := readHeaders_frame hf.accepted hs
  obtain ⟨rest', he', hrest'⟩ := Stream.skip_holds hrest f.body.length
  rw [List.drop_left] at hrest'
  refine ⟨rest', ?_, hrest'⟩
  simp [readFrame, he, hf.length, hlong, skipBody, he']

/-- A frame that is rejected leaves its rest in the stream. -/
theorem readFrame_rejected {e : FrameError} {left : List UInt8}
    (hf : f.rejection? = some (e, left)) (hs : s.Holds (f.bytes ++ more)) :
    ∃ rest, readFrame .reject s = .failed e rest ∧ rest.Holds (left ++ more) := by
  unfold rejection? at hf
  split at hf
  · next hrefused =>
    cases hf
    rw [RawFrame.bytes, List.append_assoc] at hs
    rw [List.append_assoc]
    obtain ⟨rest, he, hrest⟩ :=
      readHeaders_refused f.isBlank maxHeaderLines ⟨[], []⟩ f.isLine hrefused hs
    exact ⟨rest, by simp only [readFrame, he], hrest⟩
  · next hacc =>
    obtain ⟨rest, he, hrest⟩ := readHeaders_frame hacc hs
    split at hf
    · next hlength =>
      cases hf
      exact ⟨rest, by simp only [readFrame, he, hlength], hrest⟩
    · next hlength =>
      cases hf
      exact ⟨rest, by simp only [readFrame, he, hlength], hrest⟩
    · cases hf

end LanguageClient
