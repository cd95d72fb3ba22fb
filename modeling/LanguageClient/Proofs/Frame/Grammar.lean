import LanguageClient.Proofs.Frame.Successive

/-!
# What some bytes are to the reader

Bytes begin with a well-formed frame, or with a piece that costs one error
and nothing behind it (`Refused`), or they stop before either is complete
(`Unfinished`); the last includes no bytes at all. Nothing of this asks what
follows.

* `reading_cases`: bytes are one of the three.
* `gives_refused`: a refused piece is read as its error, whatever follows.
* `readFrame_unfinished`: unfinished bytes at the end of a stream are used up.
-/
namespace LanguageClient

open FrameReader RawFrame

/-- A header line that is taken. -/
def IsHeader (line : List UInt8) : Prop :=
  IsLine line ∧ isBlankLine line = false ∧ line.length ≤ maxHeaderLine

instance (line : List UInt8) : Decidable (IsHeader line) :=
  inferInstanceAs (Decidable (_ ∧ _ ∧ _))

/-- Bytes that are read as one error and are used up by it. -/
inductive Refused : List UInt8 → FrameError → Prop
  | overlong (lines : List (List UInt8)) (text : List UInt8)
      (hlines : ∀ line ∈ lines, IsHeader line) (hcount : lines.length ≤ maxHeaderLines)
      (htext : IsOverlong text) : Refused (lines.flatten ++ text) .lineTooLong
  | extra (lines : List (List UInt8)) (line : List UInt8) (hlines : ∀ line ∈ lines, IsHeader line)
      (hcount : lines.length = maxHeaderLines) (hline : IsLine line)
      (hlen : line.length ≤ maxHeaderLine) : Refused (lines.flatten ++ line) .tooManyHeaders
  | unmeasured (f : RawFrame) (e : FrameError) (hf : f.rejection? = some (e, [])) :
      Refused f.bytes e
  | oversized (f : RawFrame) (hf : f.GivesLength) (hlong : maxBody < f.body.length) :
      Refused f.bytes (.oversized f.body.length)

/-- Bytes that stop inside a header block, or inside a body whose length is given. -/
inductive Unfinished : List UInt8 → Prop
  | headers (lines : List (List UInt8)) (part : List UInt8) (hlines : ∀ line ∈ lines, IsHeader line)
      (hcount : lines.length ≤ maxHeaderLines) (hfeed : 0x0A ∉ part)
      (hlen : part.length ≤ maxHeaderLine) : Unfinished (lines.flatten ++ part)
  | body (f : RawFrame) (length : Nat) (haccepted : refusal? maxHeaderLines f.block = none)
      (hlength : length? f.fields = .ok (some length)) (hshort : f.body.length < length) :
      Unfinished f.bytes

/-! ## Every stream begins in one of these ways -/

/-- Bytes begin with a line, or with too long a piece of one, or stop inside of one. -/
theorem line_cases (bytes : List UInt8) :
    (∃ line more, bytes = line ++ more ∧ IsLine line ∧ line.length ≤ maxHeaderLine) ∨
    (∃ text more, bytes = text ++ more ∧ IsOverlong text) ∨
    (0x0A ∉ bytes ∧ bytes.length ≤ maxHeaderLine) := by
  by_cases hfeed : 0x0A ∈ bytes
  · obtain ⟨text, more, rfl, htext⟩ := List.eq_append_cons_of_mem hfeed
    have hline := isLine_append htext
    have hcut : text ++ 0x0A :: more = (text ++ [0x0A]) ++ more := by simp
    rw [hcut]
    by_cases hlen : (text ++ [0x0A]).length ≤ maxHeaderLine
    · exact .inl ⟨_, more, rfl, hline, hlen⟩
    · refine .inr (.inl ⟨(text ++ [0x0A]).take (maxHeaderLine + 1),
        (text ++ [0x0A]).drop (maxHeaderLine + 1) ++ more, ?_,
        isOverlong_take hline (Nat.lt_of_not_le hlen)⟩)
      rw [← List.append_assoc, List.take_append_drop]
  · by_cases hlen : bytes.length ≤ maxHeaderLine
    · exact .inr (.inr ⟨hfeed, hlen⟩)
    · refine .inr (.inl ⟨bytes.take (maxHeaderLine + 1), bytes.drop (maxHeaderLine + 1),
        (List.take_append_drop ..).symm, ?_, fun h => ?_⟩)
      · rw [List.length_take]; omega
      · exact hfeed (List.mem_of_mem_take (List.dropLast_subset _ h))

/-- Where a header block that begins in some bytes stops, if at most `accepted` lines are taken. -/
inductive BlockEnd (accepted : Nat) (lines : List (List UInt8)) : List UInt8 → Prop
  | blank (line more : List UInt8) (hblank : isBlankLine line = true)
      (hcount : lines.length < accepted) : BlockEnd accepted lines (line ++ more)
  | overlong (text more : List UInt8) (htext : IsOverlong text) :
      BlockEnd accepted lines (text ++ more)
  | extra (line more : List UInt8) (hcount : lines.length = accepted) (hline : IsLine line)
      (hlen : line.length ≤ maxHeaderLine) : BlockEnd accepted lines (line ++ more)
  | part (bytes : List UInt8) (hfeed : 0x0A ∉ bytes) (hlen : bytes.length ≤ maxHeaderLine) :
      BlockEnd accepted lines bytes

theorem block_cases (accepted : Nat) (bytes : List UInt8) :
    ∃ lines behind, bytes = lines.flatten ++ behind ∧ (∀ line ∈ lines, IsHeader line) ∧
      lines.length ≤ accepted ∧ BlockEnd accepted lines behind := by
  induction accepted generalizing bytes with
  | zero =>
    refine ⟨[], bytes, rfl, by simp, Nat.le_refl _, ?_⟩
    obtain ⟨line, more, rfl, hline, hlen⟩ | ⟨text, more, rfl, htext⟩ | ⟨hfeed, hlen⟩ :=
      line_cases bytes
    · exact .extra line more rfl hline hlen
    · exact .overlong text more htext
    · exact .part bytes hfeed hlen
  | succ accepted ih =>
    obtain ⟨line, more, rfl, hline, hlen⟩ | ⟨text, more, rfl, htext⟩ | ⟨hfeed, hlen⟩ :=
      line_cases bytes
    · cases hblank : isBlankLine line with
      | true =>
        exact ⟨[], _, rfl, by simp, Nat.zero_le _, .blank line more hblank (Nat.zero_lt_succ _)⟩
      | false =>
        obtain ⟨lines, behind, rfl, hlines, hcount, hend⟩ := ih more
        refine ⟨line :: lines, behind, by simp, ?_, Nat.succ_le_succ hcount, ?_⟩
        · intro l hl
          rcases List.mem_cons.1 hl with rfl | hl
          · exact ⟨hline, hblank, hlen⟩
          · exact hlines l hl
        · cases hend with
          | blank l m hb hc => exact .blank l m hb (Nat.succ_lt_succ hc)
          | overlong t m ht => exact .overlong t m ht
          | extra l m hc hl hn => exact .extra l m (congrArg Nat.succ hc) hl hn
          | part _ hf hn => exact .part _ hf hn
    · exact ⟨[], _, rfl, by simp, Nat.zero_le _, .overlong text more htext⟩
    · exact ⟨[], _, rfl, by simp, Nat.zero_le _, .part bytes hfeed hlen⟩

section Framed

variable {lines : List (List UInt8)} {blank : List UInt8}

/-- The frame that header lines and a blank line make with a body. -/
def framed (hlines : ∀ line ∈ lines, IsHeader line) (hblank : isBlankLine blank = true)
    (body : List UInt8) : RawFrame where
  lines := lines
  blank := blank
  body := body
  isLine := fun line hline => ⟨(hlines line hline).1, (hlines line hline).2.1⟩
  isBlank := hblank

variable (hlines : ∀ line ∈ lines, IsHeader line) (hblank : isBlankLine blank = true)

theorem bytes_framed (body : List UInt8) :
    (framed hlines hblank body).bytes = lines.flatten ++ (blank ++ body) := by
  simp [framed, RawFrame.bytes, block]

theorem accepted_framed (hroom : lines.length < maxHeaderLines) (body : List UInt8) :
    refusal? maxHeaderLines (framed hlines hblank body).block = none := by
  refine refusal?_eq_none (fun line hline => ?_)
    (by simpa [framed, block] using Nat.succ_le_of_lt hroom)
  rcases List.mem_append.1 hline with hline | hline
  · exact (hlines line hline).2.2
  · rw [List.mem_singleton.1 hline]
    exact length_blank hblank

/-- An accepted header block without a usable length is refused with nothing of what is behind. -/
theorem refused_framed (hroom : lines.length < maxHeaderLines)
    (hlength : ∀ length, length? (fieldsOf lines) ≠ .ok (some length)) :
    ∃ e, Refused (framed hlines hblank []).bytes e := by
  have haccepted := accepted_framed hlines hblank hroom []
  cases hfields : length? (fieldsOf lines) with
  | error e => exact ⟨e, .unmeasured _ e (by
      simp only [rejection?, haccepted]
      rw [fields, framed, hfields])⟩
  | ok given =>
    cases given with
    | none => exact ⟨_, .unmeasured _ .missingLength (by
        simp only [rejection?, haccepted]
        rw [fields, framed, hfields])⟩
    | some length => exact absurd hfields (hlength length)

/-- Behind an accepted header block with a length, the body is all there or the bytes are
unfinished; if it is too large, it is refused. -/
theorem measured_framed (hroom : lines.length < maxHeaderLines) {length : Nat}
    (hlength : length? (fieldsOf lines) = .ok (some length)) (more : List UInt8) :
    Unfinished (framed hlines hblank more).bytes ∨
      (∃ e, Refused (framed hlines hblank (more.take length)).bytes e) ∨
      (framed hlines hblank (more.take length)).WellFormed := by
  by_cases hshort : more.length < length
  · exact .inl (.body _ length (accepted_framed hlines hblank hroom more) hlength hshort)
  · have hbody : (more.take length).length = length := by
      rw [List.length_take]
      omega
    have hgives : (framed hlines hblank (more.take length)).GivesLength := by
      refine ⟨accepted_framed hlines hblank hroom _, ?_⟩
      show length? (fieldsOf lines) = .ok (some (more.take length).length)
      rw [hlength, hbody]
    by_cases hfits : length ≤ maxBody
    · exact .inr (.inr ⟨hgives, hbody.symm ▸ hfits⟩)
    · exact .inr (.inl ⟨_, .oversized _ hgives (hbody.symm ▸ Nat.lt_of_not_le hfits)⟩)

end Framed

/-- Bytes are unfinished, or begin with a refused piece or with a well-formed frame. -/
theorem reading_cases (bytes : List UInt8) :
    Unfinished bytes ∨
    (∃ piece e more, Refused piece e ∧ bytes = piece ++ more) ∨
    (∃ (f : RawFrame) (more : List UInt8), f.WellFormed ∧ bytes = f.bytes ++ more) := by
  obtain ⟨lines, behind, rfl, hlines, hcount, hend⟩ := block_cases maxHeaderLines bytes
  cases hend with
  | part _ hfeed hlen => exact .inl (.headers lines behind hlines hcount hfeed hlen)
  | overlong text more htext =>
    exact .inr (.inl ⟨_, _, more, .overlong lines text hlines hcount htext, by simp⟩)
  | extra line more hfull hline hlen =>
    exact .inr (.inl ⟨_, _, more, .extra lines line hlines hfull hline hlen, by simp⟩)
  | blank blank more hblank hroom =>
    by_cases hlength : ∃ length, length? (fieldsOf lines) = .ok (some length)
    · obtain ⟨length, hlength⟩ := hlength
      have hcut : lines.flatten ++ (blank ++ more) =
          (framed hlines hblank (more.take length)).bytes ++ more.drop length := by
        rw [bytes_framed]
        simp
      obtain hunfinished | ⟨e, hrefused⟩ | hwellFormed :=
        measured_framed hlines hblank hroom hlength more
      · exact .inl (bytes_framed hlines hblank more ▸ hunfinished)
      · exact .inr (.inl ⟨_, e, _, hrefused, hcut⟩)
      · exact .inr (.inr ⟨_, _, hwellFormed, hcut⟩)
    · obtain ⟨e, hrefused⟩ := refused_framed hlines hblank hroom fun length h =>
        hlength ⟨length, h⟩
      exact .inr (.inl ⟨_, e, more, hrefused, by rw [bytes_framed]; simp⟩)

/-! ## Reading them -/

variable {s : Stream} {more : List UInt8}

/-- Behind header lines the reading of the block goes on. -/
theorem readHeaders_lines (accepted : Nat) {lines : List (List UInt8)} :
    ∀ {s : Stream} (h : Headers), (∀ line ∈ lines, IsHeader line) →
      s.Holds (lines.flatten ++ more) →
      ∃ h' rest, readHeaders h (lines.length + accepted) s = readHeaders h' accepted rest ∧
        h'.bytes = h.bytes ++ lines.flatten ∧ rest.Holds more := by
  induction lines with
  | nil => exact fun h _ hs => ⟨h, _, by simp, by simp, hs⟩
  | cons line lines ih =>
    intro s h hlines hs
    obtain ⟨hline, hnot, hlen⟩ := hlines line (by simp)
    rw [List.flatten_cons, List.append_assoc] at hs
    obtain ⟨rest, he, hrest⟩ := readHeaders_line h (lines.length + accepted) hs hline hnot hlen
    obtain ⟨h', rest', he', hbytes, hrest'⟩ :=
      ih (h.add line) (fun l hl => hlines l (by simp [hl])) hrest
    refine ⟨h', rest', ?_, ?_, hrest'⟩
    · rw [List.length_cons, Nat.add_right_comm, he, he']
    · simp [hbytes, Headers.add]

theorem gives_refused {piece : List UInt8} {e : FrameError} (h : Refused piece e) :
    Gives .reject piece (.error e) := by
  intro s more hs
  cases h with
  | overlong lines text hlines hcount htext =>
    rw [List.append_assoc] at hs
    obtain ⟨accepted, haccepted⟩ := Nat.exists_eq_add_of_le hcount
    obtain ⟨h, behind, he, -, hbehind⟩ := readHeaders_lines accepted ⟨[], []⟩ hlines hs
    obtain ⟨rest, he', hrest⟩ := readHeaders_overlong h accepted hbehind htext
    exact ⟨rest, by simp only [readFrame, haccepted, he, he', FrameRead.result?], hrest⟩
  | extra lines line hlines hcount hline hlen =>
    rw [List.append_assoc] at hs
    obtain ⟨h, behind, he, -, hbehind⟩ := readHeaders_lines 0 ⟨[], []⟩ hlines hs
    obtain ⟨rest, he', hrest⟩ := readHeaders_extra h hbehind hline hlen
    rw [Nat.add_zero, hcount] at he
    exact ⟨rest, by simp only [readFrame, he, he', FrameRead.result?], hrest⟩
  | unmeasured f e hf =>
    obtain ⟨rest, he, hrest⟩ := readFrame_rejected hf hs
    exact ⟨rest, by rw [he]; rfl, hrest⟩
  | oversized f hf hlong => exact gives_oversized .reject hf hlong s more hs

theorem firstLine_part {part : List UInt8} (hfeed : 0x0A ∉ part) {limit : Nat}
    (hlen : part.length ≤ limit) : Stream.firstLine limit part = part := by
  induction part generalizing limit with
  | nil => cases limit <;> rfl
  | cons b part ih =>
    cases limit with
    | zero => cases hlen
    | succ limit =>
      rw [List.mem_cons, not_or] at hfeed
      rw [Stream.firstLine, if_neg (Ne.symm hfeed.1), ih hfeed.2 (Nat.le_of_succ_le_succ hlen)]

/-- A part of a line is read up to the end of the stream. -/
theorem readLine_part {part : List UInt8} (hs : s.Holds part) (hfeed : 0x0A ∉ part)
    (hlen : part.length ≤ maxHeaderLine) :
    ∃ rest, s.readLine (maxHeaderLine + 1) = .ok part rest ∧ rest.Holds [] := by
  obtain ⟨rest, he, hrest⟩ := Stream.readLine_holds hs (maxHeaderLine + 1)
  rw [firstLine_part hfeed (Nat.le_succ_of_le hlen)] at he hrest
  exact ⟨rest, he, by simpa using hrest⟩

/-- A header block that has begun does not end with the stream. -/
theorem readHeaders_end {h : Headers} (hbegun : h.bytes ≠ []) (accepted : Nat) (hs : s.Holds []) :
    ∃ e rest, readHeaders h accepted s = .failed e rest ∧ rest.Holds [] := by
  obtain ⟨rest, he, hrest⟩ := readLine_part hs (by simp) (by decide)
  cases accepted with
  | zero => exact ⟨.tooManyHeaders, rest, by simp [readHeaders, he], hrest⟩
  | succ accepted => exact ⟨.truncated .headers, rest, by simp [readHeaders, he, hbegun], hrest⟩

theorem readHeaders_part {h : Headers} {part : List UInt8} (hbegun : h.bytes ++ part ≠ [])
    (accepted : Nat) (hs : s.Holds part) (hfeed : 0x0A ∉ part)
    (hlen : part.length ≤ maxHeaderLine) :
    ∃ e rest, readHeaders h accepted s = .failed e rest ∧ rest.Holds [] := by
  by_cases hpart : part = []
  · subst hpart
    exact readHeaders_end (by simpa using hbegun) accepted hs
  · obtain ⟨rest, he, hrest⟩ := readLine_part hs hfeed hlen
    have hshort : ¬ maxHeaderLine < part.length := Nat.not_lt.2 hlen
    cases accepted with
    | zero => exact ⟨.tooManyHeaders, rest, by simp only [readHeaders, he, if_neg hshort], hrest⟩
    | succ accepted =>
      have hnot : isBlankLine part = false := by
        rw [Bool.eq_false_iff]
        intro hblank
        obtain ⟨text, -, rfl⟩ := (isLine_of_blank hblank).exists_text
        simp at hfeed
      obtain ⟨e, rest', he', hrest'⟩ :=
        readHeaders_end (h := h.add part) (by simp [Headers.add, hpart]) accepted hrest
      exact ⟨e, rest', by simp [readHeaders, he, hshort, hpart, hnot, he'], hrest'⟩

/-- Unfinished bytes at the end of a stream are one error, and then the stream is at its end. -/
theorem readFrame_unfinished {bytes : List UInt8} (h : Unfinished bytes) (hne : bytes ≠ [])
    (hs : s.Holds bytes) :
    ∃ e rest, readFrame .reject s = .failed e rest ∧ rest.Holds [] := by
  cases h with
  | headers lines part hlines hcount hfeed hlen =>
    obtain ⟨accepted, haccepted⟩ := Nat.exists_eq_add_of_le hcount
    obtain ⟨h, behind, he, hbytes, hbehind⟩ := readHeaders_lines accepted ⟨[], []⟩ hlines hs
    have hbegun : h.bytes ++ part ≠ [] := by rwa [hbytes, List.nil_append]
    obtain ⟨e, rest, he', hrest⟩ := readHeaders_part hbegun accepted hbehind hfeed hlen
    exact ⟨e, rest, by simp only [readFrame, haccepted, he, he'], hrest⟩
  | body f length haccepted hlength hshort =>
    rw [← List.append_nil f.bytes] at hs
    obtain ⟨behind, he, hbehind⟩ := readHeaders_frame haccepted hs
    rw [List.append_nil] at hbehind
    by_cases hlong : maxBody < length
    · obtain ⟨rest, he', hrest⟩ := Stream.skip_holds hbehind length
      rw [List.drop_of_length_le (Nat.le_of_lt hshort)] at hrest
      have hskipped : min length f.body.length < length := by omega
      refine ⟨.truncated .oversizedBody, rest, ?_, hrest⟩
      simp [readFrame, he, hlength, hlong, skipBody, he', hskipped]
    · obtain ⟨rest, he', hrest⟩ := Stream.readExactly_holds hbehind length
      rw [List.drop_of_length_le (Nat.le_of_lt hshort)] at hrest
      rw [List.take_of_length_le (Nat.le_of_lt hshort)] at he'
      refine ⟨.truncated .body, rest, ?_, hrest⟩
      simp [readFrame, he, hlength, hlong, readBody, he', hshort]

end LanguageClient
