import LanguageClient.Proofs.Frame.Successive
import LanguageClient.Proofs.Number.Numeral
import LanguageClient.Proofs.Text.Utf8

/-!
# Written frames are read back

`Frame.encode` writes one header line, the length of the body, and its reader
finds that line again whatever the body is: `encoded` is what was written as a
frame in a stream, and it gives its length as long as that fits 64 bits. A
stream is then any row of written frames and of frames whose body is too long
to be taken (`Packet`), cut into chunks anywhere.

* `bytes_encoded`, `givesLength_encoded`: the written bytes are such a frame.
* `successive_packets`: reading such a stream gives every body as it was
  written and one error for each frame that is too long, then the end.
-/
namespace LanguageClient

open FrameReader

namespace RawFrame

/-! ## The line that gives the length -/

/-- The name of the header that gives the length. -/
def lengthName : List Char :=
  "Content-Length".toList

/-- The header for a length, without the end of its line. -/
def lengthText (n : Nat) : List Char :=
  lengthName ++ ':' :: ' ' :: Nat.toDigits 10 n

def lengthLine (n : Nat) : List UInt8 :=
  Utf8.encode (lengthText n) ++ [0x0D, 0x0A]

theorem toNat_of_mem_lengthName {c : Char} (h : c ∈ lengthName) :
    32 ≤ c.toNat ∧ c.toNat < 0x80 := by
  have hname : ∀ c ∈ lengthName, decide (32 ≤ c.toNat ∧ c.toNat < 0x80) = true :=
    List.all_eq_true.1 (by decide)
  exact of_decide_eq_true (hname c h)

theorem ne_colon_of_mem_lengthName : ∀ c ∈ lengthName, decide (c ≠ ':') = true :=
  List.all_eq_true.1 (by decide)

theorem toNat_of_mem_lengthText {n : Nat} {c : Char} (h : c ∈ lengthText n) :
    32 ≤ c.toNat ∧ c.toNat < 0x80 := by
  rcases List.mem_append.1 h with h | h
  · exact toNat_of_mem_lengthName h
  · simp only [List.mem_cons] at h
    rcases h with rfl | rfl | h
    · decide
    · decide
    · have := Numeral.toNat_of_mem_toDigits h
      omega

/-- The only line feed of the line is its last byte. -/
theorem isLine_lengthLine (n : Nat) : IsLine (lengthLine n) := by
  have hsplit : lengthLine n = (Utf8.encode (lengthText n) ++ [0x0D]) ++ [0x0A] := by
    simp [lengthLine]
  rw [hsplit, Utf8.encode_ascii fun c hc => (toNat_of_mem_lengthText hc).2]
  refine isLine_append fun hfeed => ?_
  simp only [List.mem_append, List.mem_map, List.mem_singleton] at hfeed
  rcases hfeed with ⟨c, hc, hbyte⟩ | hbyte
  · have hrange := toNat_of_mem_lengthText hc
    have hmod : c.toNat % 256 = 10 := by
      rw [← UInt8.toNat_ofNat', hbyte]; rfl
    omega
  · exact absurd hbyte (by decide)

theorem not_isBlank_of_isDigit {c : Char} (h : 48 ≤ c.toNat ∧ c.toNat ≤ 57) :
    Blank.isBlank c = false := by
  simp only [Blank.isBlank, CharRanges.contains, Blank.ranges, List.any_cons, List.any_nil]
  simp
  omega

theorem map_lengthLine (n : Nat) : ((lengthLine n).map fun b => Char.ofNat b.toNat) =
    lengthName ++ ':' :: ([' '] ++ Nat.toDigits 10 n ++ ['\r', '\n']) := by
  have hend : ([0x0D, 0x0A] : List UInt8).map (fun b => Char.ofNat b.toNat) = ['\r', '\n'] := by
    decide
  rw [lengthLine, List.map_append,
    Utf8.map_encode_ascii fun c hc => (toNat_of_mem_lengthText hc).2, hend, lengthText]
  simp

theorem fieldOfLine_lengthLine (n : Nat) :
    fieldOfLine? (lengthLine n) = some ("Content-Length", String.ofList (Nat.toDigits 10 n)) := by
  have hkey : String.ofList (Blank.trim lengthName) = "Content-Length" := by decide
  have hvalue : Blank.trim ([' '] ++ Nat.toDigits 10 n ++ ['\r', '\n']) = Nat.toDigits 10 n :=
    Blank.trim_append (List.all_eq_true.1 (by decide))
      (fun c hc => not_isBlank_of_isDigit (Numeral.toNat_of_mem_toDigits hc))
      Nat.toDigits_ne_nil (List.all_eq_true.1 (by decide))
  simp only [fieldOfLine?, map_lengthLine, List.dropWhile_append_of_pos ne_colon_of_mem_lengthName,
    List.takeWhile_append_of_pos ne_colon_of_mem_lengthName]
  simp only [List.dropWhile_cons, List.takeWhile_cons, ne_eq, not_true, decide_false,
    Bool.false_eq_true, if_false, List.append_nil, hkey, hvalue]

/-! ## What was written, as a frame -/

/-- A body as it is written. -/
def encoded (body : List UInt8) : RawFrame where
  lines := [lengthLine body.length]
  blank := [0x0D, 0x0A]
  body := body
  isLine := by
    intro line hline
    obtain rfl := List.mem_singleton.1 hline
    exact ⟨isLine_lengthLine _, rfl⟩
  isBlank := isBlankLine_end

theorem bytes_encoded (body : List UInt8) : (encoded body).bytes = Frame.encode body := by
  have hname : ("Content-Length: " : String).toList = lengthName ++ [':', ' '] := by decide
  have hend : Utf8.encode ("\r\n\r\n" : String).toList = [0x0D, 0x0A] ++ [0x0D, 0x0A] := by decide
  have htext : Utf8.encode (("Content-Length: " : String).toList ++ Nat.toDigits 10 body.length) =
      Utf8.encode (lengthText body.length) := by
    rw [hname, List.append_assoc]
    rfl
  rw [Frame.encode, Frame.headerFor, Utf8.ofString, String.toList_append, String.toList_append,
    Nat.toString_eq_ofList_toDigits, String.toList_ofList (l := Nat.toDigits 10 _),
    Utf8.encode_append, htext, hend]
  simp [bytes, block, encoded, lengthLine]

theorem length_lengthLine {n : Nat} (h : n < 0x10000000000000000) :
    (lengthLine n).length ≤ maxHeaderLine := by
  have hdigits : (Nat.toDigits 10 n).length ≤ 20 :=
    (Nat.length_toDigits_le_iff (by decide) (by decide)).2 (Nat.lt_trans h (by decide))
  have hname : lengthName.length = 14 := by decide
  rw [lengthLine, Utf8.encode_ascii fun c hc => (toNat_of_mem_lengthText hc).2]
  simp only [lengthText, List.length_append, List.length_map, List.length_cons, List.length_nil,
    hname, maxHeaderLine]
  omega

/-- What is written gives its length, as far as a length can be read. -/
theorem givesLength_encoded {body : List UInt8} (h : body.length < 0x10000000000000000) :
    (encoded body).GivesLength where
  accepted := by
    refine refusal?_eq_none (fun line hline => ?_) (show 2 ≤ maxHeaderLines by decide)
    rcases List.mem_cons.1 hline with rfl | hline
    · exact length_lengthLine h
    · rw [List.mem_singleton.1 hline]
      exact show 2 ≤ maxHeaderLine by decide
  length := by
    have hsame : Frame.sameName "Content-Length" "Content-Length" = true := by decide
    have hread : Numeral.read 0x10000000000000000 (Nat.toDigits 10 body.length) = .ok body.length :=
      Numeral.read_toDigits h
    simp [fields, encoded, fieldsOf, fieldOfLine_lengthLine, length?, Frame.field?, hsame, hread]

end RawFrame

/-! ## Streams of packets -/

/-- What is in a stream: a body as it is written, or a frame whose body is too long. -/
inductive Packet where
  | payload (body : List UInt8) (fits : body.length ≤ maxBody)
  | oversized (f : RawFrame) (gives : f.GivesLength) (long : maxBody < f.body.length)

namespace Packet

def bytes : Packet → List UInt8
  | payload body _ => Frame.encode body
  | oversized f _ _ => f.bytes

/-- What its receiver should get: the body, or the error that says how long it would be. -/
def answer : Packet → Except FrameError (Option (List UInt8))
  | payload body _ => .ok (some body)
  | oversized f _ _ => .error (.oversized f.body.length)

def result : Packet → FrameResult
  | payload body _ => .ok (some (RawFrame.encoded body).frame)
  | oversized f _ _ => .error (.oversized f.body.length)

theorem body_result (p : Packet) : p.result.map (Option.map Frame.body) = p.answer := by
  cases p <;> rfl

theorem gives_result (policy : MissingLength) (p : Packet) : Gives policy p.bytes p.result := by
  cases p with
  | payload body fits =>
    have hgives : (RawFrame.encoded body).GivesLength :=
      RawFrame.givesLength_encoded (Nat.lt_of_le_of_lt fits (by decide))
    rw [bytes, ← RawFrame.bytes_encoded]
    exact gives_wellFormed policy ⟨hgives, fits⟩
  | oversized f gives long => exact gives_oversized policy gives long

theorem not_isFatal_result {p : Packet} {e : FrameError} (h : p.result = .error e) :
    e.isFatal = false := by
  cases p with
  | payload body fits => cases h
  | oversized f gives long => cases h; rfl

/-- However a stream of packets is cut, its reader gets every body byte for byte and one error, that
is not fatal, for every frame that is too long, in their order, and then the end. -/
theorem successive_packets (policy : MissingLength) (packets : List Packet)
    (pieces : List (List UInt8)) (hcut : pieces.flatten = (packets.map bytes).flatten)
    (calls : Nat) :
    let results := successive policy (packets.length + calls) (.ofChunks (pieces.map .bytes))
    results.map (Except.map (Option.map Frame.body)) =
        packets.map answer ++ List.replicate calls (.ok none) ∧
      ∀ e, .error e ∈ results → e.isFatal = false := by
  have hs := Stream.holds_ofChunks pieces
  rw [hcut] at hs
  have hyields : Yields policy (packets.map bytes).flatten (packets.map result) := by
    rw [List.map_eq_flatMap (f := result), List.flatMap_def]
    exact yields_flatten bytes _ fun p _ => (gives_result policy p).yields
  intro results
  have hresults : results = packets.map result ++ List.replicate calls (.ok none) := by
    rw [← successive_of_yields hyields hs, List.length_map]
  rw [hresults]
  constructor
  · rw [List.map_append, List.map_map, List.map_replicate]
    congr 1
    exact List.map_congr_left fun p _ => body_result p
  · intro e he
    rcases List.mem_append.1 he with he | he
    · obtain ⟨p, -, hp⟩ := List.mem_map.1 he
      exact not_isFatal_result hp
    · cases List.eq_of_mem_replicate he

/-- A body that looks like a header block, behind a frame whose body is one byte too long. -/
def lookalike : List Packet :=
  [.oversized (.encoded (List.replicate (maxBody + 1) 0x0A))
      (RawFrame.givesLength_encoded (by rw [List.length_replicate]; decide))
      (by rw [RawFrame.encoded, List.length_replicate]; decide),
    .payload (Frame.headerFor [0x7B, 0x7D]) (by decide)]

/-- The stream of these, byte by byte. -/
theorem successive_packets_lookalike :
    let pieces := (lookalike.map bytes).flatten.map ([·])
    let results := successive .reject 3 (.ofChunks (pieces.map .bytes))
    pieces.flatten = (lookalike.map bytes).flatten ∧
      results.map (Except.map (Option.map Frame.body)) =
        [.error (.oversized 33554433), .ok (some (Frame.headerFor [0x7B, 0x7D])), .ok none] ∧
      ∀ e, .error e ∈ results → e.isFatal = false := by
  have hcut : ((lookalike.map bytes).flatten.map ([·])).flatten =
      (lookalike.map bytes).flatten := by
    simp [← List.flatMap_def]
  have hanswers : lookalike.map answer ++ List.replicate 1 (.ok none) =
      [.error (.oversized 33554433), .ok (some (Frame.headerFor [0x7B, 0x7D])), .ok none] := by
    have hlength : (List.replicate (maxBody + 1) (0x0A : UInt8)).length = 33554433 :=
      List.length_replicate
    rw [← hlength]
    rfl
  rw [← hanswers]
  exact ⟨hcut, successive_packets .reject lookalike _ hcut 1⟩

end Packet

end LanguageClient
