import LanguageClient.Proofs.Frame.Grammar
import LanguageClient.Proofs.Frame.RoundTrip

/-!
# A frame that is easily lost

Behind bytes that stop inside a header block or a body, what follows is taken
for their rest. The `decoy` is a well-formed frame that is lost there whatever
those bytes are: its first line is as long as a line may be and gives the
length, and it has as many lines as a block may have. One byte of a line before
it makes that line too long, one line before it makes the lines too many, and
no end of it that is shorter than the whole gives a length.

* `bodies_of_colonless`: bytes without a colon give no body.
* `bodies_decoy_drop`: nothing of a decoy but the whole gives a body.
* `bodies_decoy`: behind unfinished bytes the body of a decoy is not found.
-/
namespace LanguageClient

open FrameReader RawFrame

/-! ## Bodies -/

/-- The bodies among some results. -/
def bodies (results : List FrameResult) : List (List UInt8) :=
  results.filterMap fun
    | .ok (some f) => some f.body
    | _ => none

@[simp] theorem bodies_nil : bodies [] = [] := rfl

@[simp] theorem bodies_error (e : FrameError) (results : List FrameResult) :
    bodies (.error e :: results) = bodies results := rfl

@[simp] theorem bodies_frame (f : Frame) (results : List FrameResult) :
    bodies (.ok (some f) :: results) = f.body :: bodies results := rfl

theorem bodies_append (results results' : List FrameResult) :
    bodies (results ++ results') = bodies results ++ bodies results' :=
  List.filterMap_append ..

@[simp] theorem bodies_replicate (calls : Nat) :
    bodies (List.replicate calls (.ok none)) = [] := by
  induction calls with
  | zero => rfl
  | succ calls ih => rw [List.replicate_succ]; exact ih

/-! ## Bytes without a colon -/

/-- A line without a colon is no field. -/
theorem fieldOfLine?_eq_none {line : List UInt8} (h : 0x3A ∉ line) : fieldOfLine? line = none := by
  have hcolon : ∀ c ∈ line.map fun b => Char.ofNat b.toNat, decide (c ≠ ':') = true := by
    intro c hc
    obtain ⟨b, hb, rfl⟩ := List.mem_map.1 hc
    refine decide_eq_true fun he => h ?_
    have hbyte : b.toNat = 0x3A := by rw [← Utf8.toNat_ofNat_byte, he]; rfl
    exact (UInt8.toNat_inj (b := 0x3A)).1 hbyte ▸ hb
  have hdrop := @List.dropWhile_append_of_pos _ _ _ [] hcolon
  rw [List.append_nil] at hdrop
  simp only [fieldOfLine?, hdrop, List.dropWhile_nil]

theorem fieldsOf_eq_nil {lines : List (List UInt8)} (h : ∀ line ∈ lines, 0x3A ∉ line) :
    fieldsOf lines = [] := by
  rw [fieldsOf, List.flatMap_eq_nil_iff]
  intro line hline
  rw [fieldOfLine?_eq_none (h line hline)]
  rfl

/-- Bytes without a colon give no length, so they give no body. -/
theorem bodies_of_colonless (calls : Nat) :
    ∀ {s : Stream} {bytes : List UInt8}, 0x3A ∉ bytes → s.Holds bytes →
      bodies (successive .reject calls s) = [] := by
  induction calls with
  | zero => exact fun _ _ => rfl
  | succ calls ih =>
    intro s bytes hcolon hs
    obtain hopen | ⟨piece, e, more, hpiece, rfl⟩ | ⟨f, more, hf, rfl⟩ := reading_cases bytes
    · by_cases hne : bytes = []
      · subst hne
        rw [successive_end _ hs, bodies_replicate]
      · obtain ⟨e, rest, he, hrest⟩ := readFrame_unfinished hopen hne hs
        rw [successive_failed he, successive_end _ hrest, bodies_error, bodies_replicate]
    · obtain ⟨rest, he, hrest⟩ := gives_refused hpiece s more hs
      rw [successive_succ he, bodies_error]
      exact ih (fun h => hcolon (List.mem_append_right _ h)) hrest
    · have hfields : f.fields = [] := fieldsOf_eq_nil fun line hline h => hcolon <| by
        simp only [RawFrame.bytes, block, List.mem_append, List.mem_flatten]
        exact .inl (.inl ⟨line, by simp [hline], h⟩)
      have hlength := hf.length
      rw [hfields] at hlength
      cases hlength

/-! ## A frame that is easily lost -/

/-- What follows the colon in the first line of a decoy: the length 1, and blanks up to the longest
line there may be. -/
def decoyTail : List UInt8 :=
  [0x20] ++ [0x31] ++ (List.replicate 65518 0x20 ++ [0x0A])

/-- The first line of a decoy without its first `j` bytes. -/
def decoyLine (j : Nat) : List UInt8 :=
  (Utf8.encode lengthName).drop j ++ 0x3A :: decoyTail

/-- The other header lines of a decoy, as many as there may be. -/
def decoyLines : List (List UInt8) :=
  List.replicate 98 [0x78, 0x0A]

theorem length_decoyTail : decoyTail.length = 65521 := by
  rw [decoyTail, List.length_append, List.length_append, List.length_append, List.length_replicate]
  rfl

theorem length_decoyLine (j : Nat) : (decoyLine j).length = 65536 - min j 14 := by
  have hname : (Utf8.encode lengthName).length = 14 := by decide
  rw [decoyLine, List.length_append, List.length_drop, hname, List.length_cons, length_decoyTail]
  omega

theorem isHeader_decoyLine (j : Nat) : IsHeader (decoyLine j) := by
  refine ⟨?_, ?_, ?_⟩
  · have hsplit : decoyLine j = ((Utf8.encode lengthName).drop j ++
        0x3A :: ([0x20] ++ [0x31] ++ List.replicate 65518 0x20)) ++ [0x0A] := by
      simp only [decoyLine, decoyTail, List.append_assoc, List.cons_append]
    rw [hsplit]
    refine isLine_append fun hfeed => ?_
    have hname : 0x0A ∉ Utf8.encode lengthName := by decide
    simp only [List.mem_append, List.mem_cons, List.mem_replicate] at hfeed
    rcases hfeed with hfeed | hfeed | hfeed
    · exact hname (List.mem_of_mem_drop hfeed)
    · exact absurd hfeed (by decide)
    · revert hfeed; simp
  · rw [Bool.eq_false_iff]
    intro hblank
    have hcolon : 0x3A ∈ decoyLine j := by simp [decoyLine]
    simp only [isBlankLine, Bool.or_eq_true, beq_iff_eq] at hblank
    rcases hblank with hblank | hblank <;> rw [hblank] at hcolon <;> revert hcolon <;> decide
  · rw [length_decoyLine, maxHeaderLine]
    omega

theorem isHeader_decoyLines : ∀ line ∈ decoyLines, IsHeader line := by
  intro line hline
  obtain rfl := List.eq_of_mem_replicate hline
  decide

theorem isHeader_decoy (j : Nat) : ∀ line ∈ decoyLine j :: decoyLines, IsHeader line := by
  intro line hline
  rcases List.mem_cons.1 hline with rfl | hline
  · exact isHeader_decoyLine j
  · exact isHeader_decoyLines line hline

theorem fieldOfLine_decoyLine (j : Nat) :
    fieldOfLine? (decoyLine j) = some (String.ofList (Blank.trim (lengthName.drop j)), "1") := by
  have hname : ∀ c ∈ lengthName.drop j, decide (c ≠ ':') = true := fun c hc =>
    ne_colon_of_mem_lengthName c (List.mem_of_mem_drop hc)
  have htext : ((decoyLine j).map fun b => Char.ofNat b.toNat) =
      lengthName.drop j ++ ':' :: ([' '] ++ ['1'] ++ (List.replicate 65518 ' ' ++ ['\n'])) := by
    rw [decoyLine, List.map_append, List.map_drop,
      Utf8.map_encode_ascii fun c hc => (toNat_of_mem_lengthName hc).2, List.map_cons, decoyTail,
      List.map_append, List.map_append, List.map_append, List.map_replicate]
    rfl
  have hvalue : Blank.trim ([' '] ++ ['1'] ++ (List.replicate 65518 ' ' ++ ['\n'])) = ['1'] := by
    have hblank : ∀ c ∈ [' '], Blank.isBlank c = true := List.all_eq_true.1 (by decide)
    have hone : ∀ c ∈ ['1'], Blank.isBlank c = false := by
      intro c hc
      rw [List.mem_singleton.1 hc]
      decide
    refine Blank.trim_append hblank hone (List.cons_ne_nil _ _) fun c hc => ?_
    rcases List.mem_append.1 hc with hc | hc
    · rw [List.eq_of_mem_replicate hc]; decide
    · rw [List.mem_singleton.1 hc]; decide
  simp only [fieldOfLine?, htext, List.dropWhile_append_of_pos hname,
    List.takeWhile_append_of_pos hname]
  simp only [List.dropWhile_cons, List.takeWhile_cons, ne_eq, not_true, decide_false,
    Bool.false_eq_true, if_false, List.append_nil, hvalue]

/-- A decoy without its first `j` bytes, with some body. -/
def decoyFrom (j : Nat) (body : List UInt8) : RawFrame where
  lines := decoyLine j :: decoyLines
  blank := [0x0A]
  body := body
  isLine := fun line hline => ⟨(isHeader_decoy j line hline).1, (isHeader_decoy j line hline).2.1⟩
  isBlank := rfl

/-- A frame with a longest line, which gives the length, and with as many lines as it may have. -/
def decoy : RawFrame :=
  decoyFrom 0 [0x61]

theorem accepted_decoyFrom (j : Nat) (body : List UInt8) :
    refusal? maxHeaderLines (decoyFrom j body).block = none := by
  refine refusal?_eq_none (fun line hline => ?_)
    (by simp [block, decoyFrom, decoyLines, maxHeaderLines])
  rcases List.mem_append.1 hline with hline | hline
  · exact (isHeader_decoy j line hline).2.2
  · exact List.mem_singleton.1 hline ▸ length_blank (decoyFrom j body).isBlank

theorem fields_decoyFrom (j : Nat) (body : List UInt8) :
    (decoyFrom j body).fields = [(String.ofList (Blank.trim (lengthName.drop j)), "1")] := by
  have hlines : fieldsOf decoyLines = [] := fieldsOf_eq_nil fun line hline => by
    rw [List.eq_of_mem_replicate hline]
    decide
  rw [fieldsOf] at hlines
  simp only [fields, decoyFrom, fieldsOf, List.flatMap_cons, fieldOfLine_decoyLine, hlines]
  rfl

theorem decoy_wellFormed : decoy.WellFormed where
  accepted := accepted_decoyFrom 0 _
  length := by
    rw [decoy, fields_decoyFrom]
    decide
  fits := by decide

/-- A decoy that has lost the beginning of its first line does not give its length. -/
theorem rejection_decoyFrom {j : Nat} (hpos : 0 < j) (hle : j ≤ 14) :
    (decoyFrom j []).rejection? = some (.missingLength, []) := by
  have hname : ∀ j : Fin 15, 0 < j.val → Frame.sameName
      (String.ofList (Blank.trim (lengthName.drop j.val))) "Content-Length" = false := by decide
  have hlength : length? (decoyFrom j []).fields = .ok none := by
    rw [fields_decoyFrom]
    simp [length?, Frame.field?, hname ⟨j, by omega⟩ hpos]
  simp only [rejection?, accepted_decoyFrom, hlength]
  rfl

theorem bytes_decoyFrom (j : Nat) (body : List UInt8) :
    (decoyFrom j body).bytes =
      (Utf8.encode lengthName).drop j ++
        0x3A :: (decoyTail ++ (decoyLines.flatten ++ ([0x0A] ++ body))) := by
  simp [RawFrame.bytes, block, decoyFrom, decoyLine]

theorem bytes_decoy :
    decoy.bytes = decoyLine 0 ++ (decoyLines.flatten ++ ([0x0A] ++ [0x61])) := by
  simp [RawFrame.bytes, block, decoy, decoyFrom]

theorem head_decoy : decoy.bytes.take 1 = [0x43] := by
  have hname : Utf8.encode lengthName = 0x43 :: (Utf8.encode lengthName).tail := by decide
  rw [decoy, bytes_decoyFrom, List.drop_zero, hname]
  rfl

theorem colonless_behind : 0x3A ∉ decoyTail ++ (decoyLines.flatten ++ ([0x0A] ++ [0x61])) := by
  intro h
  simp only [decoyTail, decoyLines, List.mem_append, List.mem_flatten, List.mem_replicate,
    List.mem_singleton] at h
  rcases h with ((h | h) | h | h) | ⟨line, ⟨-, rfl⟩, h⟩ | h | h <;> revert h <;> decide

/-- Nothing of a decoy but the whole gives a body. -/
theorem bodies_decoy_drop {j : Nat} (hpos : 0 < j) {s : Stream}
    (hs : s.Holds (decoy.bytes.drop j)) (calls : Nat) :
    bodies (successive .reject calls s) = [] := by
  have hname : (Utf8.encode lengthName).length = 14 := by decide
  rw [decoy, bytes_decoyFrom, List.drop_zero] at hs
  by_cases hle : j ≤ 14
  · -- The name of the header is cut, so the block gives no length.
    have hcut : (Utf8.encode lengthName ++
        0x3A :: (decoyTail ++ (decoyLines.flatten ++ ([0x0A] ++ [0x61])))).drop j =
        (decoyFrom j []).bytes ++ [0x61] := by
      rw [List.drop_append_of_le_length (by omega), bytes_decoyFrom]
      simp
    rw [hcut] at hs
    cases calls with
    | zero => rfl
    | succ calls =>
      obtain ⟨rest, he, hrest⟩ :=
        gives_refused (.unmeasured _ _ (rejection_decoyFrom hpos hle)) s _ hs
      rw [successive_succ he, bodies_error]
      exact bodies_of_colonless calls (by decide) hrest
  · -- The only colon is cut off.
    refine bodies_of_colonless calls (fun hcolon => colonless_behind ?_) hs
    rw [List.drop_append, List.drop_of_length_le (by omega), List.nil_append,
      show j - (Utf8.encode lengthName).length = (j - 15) + 1 by omega,
      List.drop_succ_cons] at hcolon
    exact List.mem_of_mem_drop hcolon

/-! ## A decoy behind what has not come to its end -/

/-- Bytes with a decoy behind them cost the beginning of the decoy. -/
def Costs (bytes : List UInt8) : Prop :=
  ∃ piece e j, Refused piece e ∧ 0 < j ∧ bytes ++ decoy.bytes = piece ++ decoy.bytes.drop j

/-- Behind part of a line, the first line of the decoy makes one that is too long. -/
theorem costs_of_part {lines : List (List UInt8)} {part : List UInt8}
    (hlines : ∀ line ∈ lines, IsHeader line) (hcount : lines.length ≤ maxHeaderLines)
    (hfeed : 0x0A ∉ part) (hlen : part.length ≤ maxHeaderLine) (hpart : part ≠ []) :
    Costs (lines.flatten ++ part) := by
  have hline : IsLine (part ++ decoyLine 0) := by
    obtain ⟨text, htext, he⟩ := (isHeader_decoyLine 0).1.exists_text
    rw [he, ← List.append_assoc]
    exact isLine_append fun h => (List.mem_append.1 h).elim hfeed htext
  have hpos : 0 < part.length := List.length_pos_iff.2 hpart
  have hlong : maxHeaderLine < (part ++ decoyLine 0).length := by
    rw [List.length_append, length_decoyLine, maxHeaderLine]
    omega
  have hroom : maxHeaderLine + 1 - part.length ≤ (decoyLine 0).length := by
    rw [length_decoyLine, maxHeaderLine]
    omega
  have htake : (part ++ decoyLine 0).take (maxHeaderLine + 1) =
      part ++ decoy.bytes.take (maxHeaderLine + 1 - part.length) := by
    rw [List.take_append, List.take_of_length_le (Nat.le_succ_of_le hlen), bytes_decoy,
      List.take_append_of_le_length hroom]
  refine ⟨_, _, maxHeaderLine + 1 - part.length,
    .overlong lines _ hlines hcount (isOverlong_take hline hlong), by omega, ?_⟩
  rw [htake, List.append_assoc, List.append_assoc, List.append_assoc, List.take_append_drop]

theorem length_block_decoy : decoy.block.length = 100 := by
  simp only [block, decoy, decoyFrom, decoyLines, List.length_append, List.length_cons,
    List.length_replicate, List.length_nil]

/-- A decoy cut at one of its lines: before it there are header lines only. -/
theorem block_decoy_cut {taken : Nat} (h : taken < 100) :
    ∃ line tail, decoy.block = decoy.block.take taken ++ line :: tail ∧
      (∀ l ∈ decoy.block.take taken, IsHeader l) ∧
      IsLine line ∧ line.length ≤ maxHeaderLine := by
  obtain ⟨line, tail, hdrop⟩ : ∃ line tail, decoy.block.drop taken = line :: tail :=
    List.exists_cons_of_ne_nil fun hdrop => by
      rw [List.drop_eq_nil_iff, length_block_decoy] at hdrop
      omega
  refine ⟨line, tail, by rw [← hdrop, List.take_append_drop], fun l hl => ?_, ?_⟩
  · have hwithin : taken ≤ decoy.lines.length := by
      simp only [decoy, decoyFrom, decoyLines, List.length_cons, List.length_replicate]
      omega
    rw [block, List.take_append_of_le_length hwithin] at hl
    exact isHeader_decoy 0 l (List.mem_of_mem_take hl)
  · have hmem : line ∈ decoy.block := List.mem_of_mem_drop (hdrop ▸ List.mem_cons_self)
    rcases List.mem_append.1 hmem with hmem | hmem
    · exact ⟨(isHeader_decoy 0 line hmem).1, (isHeader_decoy 0 line hmem).2.2⟩
    · rw [List.mem_singleton.1 hmem]
      exact ⟨isLine_of_blank decoy.isBlank, length_blank decoy.isBlank⟩

/-- Behind some whole lines, the lines of the decoy are too many. -/
theorem costs_of_lines {lines : List (List UInt8)} (hlines : ∀ line ∈ lines, IsHeader line)
    (hcount : lines.length ≤ maxHeaderLines) (hne : lines ≠ []) : Costs lines.flatten := by
  have hpos : 0 < lines.length := List.length_pos_iff.2 hne
  have hfew : maxHeaderLines - lines.length < 100 := by
    rw [maxHeaderLines]
    omega
  obtain ⟨line, tail, hblock, htaken, hline, hlen⟩ := block_decoy_cut hfew
  have hlength : (decoy.block.take (maxHeaderLines - lines.length)).length =
      maxHeaderLines - lines.length := by
    rw [List.length_take, length_block_decoy]
    omega
  generalize decoy.block.take (maxHeaderLines - lines.length) = taken at *
  have hbytes : decoy.bytes = (taken.flatten ++ line) ++ (tail.flatten ++ decoy.body) := by
    rw [RawFrame.bytes, hblock]
    simp only [List.flatten_append, List.flatten_cons, List.append_assoc]
  refine ⟨_, _, (taken.flatten ++ line).length,
    .extra (lines ++ taken) line (fun l hl => ?_) ?_ hline hlen, ?_, ?_⟩
  · exact (List.mem_append.1 hl).elim (hlines l) (htaken l)
  · rw [List.length_append, hlength]
    omega
  · have := List.length_pos_iff.2 hline.ne_nil
    rw [List.length_append]
    omega
  · rw [hbytes, List.drop_left]
    simp only [List.flatten_append, List.append_assoc]

/-- The frame with another body. -/
def withBody (f : RawFrame) (body : List UInt8) : RawFrame :=
  { f with body }

theorem bytes_withBody (f : RawFrame) (body : List UInt8) :
    (withBody f (f.body ++ body)).bytes = f.bytes ++ body :=
  (List.append_assoc ..).symm

/-- Where the beginning of the decoy completes a body, that is not the body of the decoy: it would
be the first byte of the decoy. -/
theorem body_ne_decoy {f : RawFrame} {length : Nat} (hshort : f.body.length < length)
    (hbody : (f.body ++ decoy.bytes.take (length - f.body.length)).length = length) :
    f.body ++ decoy.bytes.take (length - f.body.length) ≠ decoy.body := by
  intro hsame
  have hone : length = 1 := by
    rw [← hbody, hsame]
    rfl
  have hnil : f.body = [] := List.eq_nil_of_length_eq_zero (by omega)
  rw [hnil, hone, List.length_nil, List.nil_append, head_decoy] at hsame
  exact absurd hsame (by decide)

theorem decoy_cases {bytes : List UInt8} (h : Unfinished bytes) (hne : bytes ≠ []) :
    Unfinished (bytes ++ decoy.bytes) ∨ Costs bytes ∨
    ∃ (f : RawFrame) (more : List UInt8), f.WellFormed ∧ f.body ≠ decoy.body ∧
      bytes ++ decoy.bytes = f.bytes ++ more := by
  cases h with
  | headers lines part hlines hcount hfeed hlen =>
    by_cases hpart : part = []
    · subst hpart
      rw [List.append_nil] at hne ⊢
      exact .inr (.inl (costs_of_lines hlines hcount (by rintro rfl; exact hne rfl)))
    · exact .inr (.inl (costs_of_part hlines hcount hfeed hlen hpart))
  | body f length haccepted hlength hshort =>
    by_cases hend : (f.body ++ decoy.bytes).length < length
    · -- The decoy is not long enough to complete the body.
      refine .inl ?_
      rw [← bytes_withBody]
      exact .body (withBody f (f.body ++ decoy.bytes)) length haccepted hlength hend
    · -- The body is completed with the beginning of the decoy.
      have hbody : (f.body ++ decoy.bytes.take (length - f.body.length)).length = length := by
        rw [List.length_append, Nat.not_lt] at hend
        rw [List.length_append, List.length_take]
        omega
      have hcut : f.bytes ++ decoy.bytes =
          (withBody f (f.body ++ decoy.bytes.take (length - f.body.length))).bytes ++
            decoy.bytes.drop (length - f.body.length) := by
        rw [bytes_withBody, List.append_assoc, List.take_append_drop]
      have hgives : (withBody f (f.body ++
          decoy.bytes.take (length - f.body.length))).GivesLength :=
        ⟨haccepted, hlength.trans (congrArg (Except.ok ∘ some) hbody.symm)⟩
      by_cases hfits : length ≤ maxBody
      · exact .inr (.inr ⟨_, _, ⟨hgives, Nat.le_trans (Nat.le_of_eq hbody) hfits⟩,
          body_ne_decoy hshort hbody, hcut⟩)
      · exact .inr (.inl ⟨_, _, length - f.body.length, .oversized _ hgives
          (Nat.lt_of_lt_of_eq (Nat.lt_of_not_le hfits) hbody.symm), by omega, hcut⟩)

/-- A decoy behind bytes that do not come to an end is not found. -/
theorem bodies_decoy {bytes : List UInt8} (h : Unfinished bytes) (hne : bytes ≠ []) {s : Stream}
    (hs : s.Holds (bytes ++ decoy.bytes)) (calls : Nat) :
    bodies (successive .reject calls s) ≠ [decoy.body] := by
  cases calls with
  | zero => simp [successive]
  | succ calls =>
    obtain hopen | ⟨piece, e, j, hpiece, hpos, hcut⟩ | ⟨f, more, hf, hbody, hcut⟩ :=
      decoy_cases h hne
    · obtain ⟨e, rest, he, hrest⟩ := readFrame_unfinished hopen (by simp [hne]) hs
      rw [successive_failed he, successive_end _ hrest, bodies_error, bodies_replicate]
      simp
    · rw [hcut] at hs
      obtain ⟨rest, he, hrest⟩ := gives_refused hpiece s _ hs
      rw [successive_succ he, bodies_error, bodies_decoy_drop hpos hrest]
      simp
    · rw [hcut] at hs
      obtain ⟨rest, he, hrest⟩ := gives_wellFormed .reject hf s _ hs
      rw [successive_succ he, bodies_frame]
      intro hsame
      exact hbody (List.cons.inj hsame).1

end LanguageClient
