import LanguageClient.Frame.Reader

/-!
# What reading takes of a stream

A read takes from a stream the bytes that it gives, and nothing else; what is
left is as much less, and has ended if the stream has (`Outcome.Takes`). A
reading of a frame that goes on behind it, with a frame or an error that is not
fatal, has taken something.

* `takes_readSome` to `takes_skip`: the reads of a stream.
* `takes_readFrame`: the reading of a frame.
-/
namespace LanguageClient

/-- A read gives a value of this measure, and takes so much of what is available. A fault takes
something. What is left has ended or not. -/
def Outcome.Takes {α : Type} (measure : α → Nat) (available : Nat) (ended : Bool) :
    Outcome α → Prop
  | .ok value rest => measure value + rest.size = available ∧ rest.ended = ended
  | .fault _ rest => rest.size < available ∧ rest.ended = ended
  | .starved => True

namespace Stream

/-! ## Single reads -/

/-- How much some chunks have. -/
def chunksSize (chunks : List Chunk) : Nat :=
  chunks.foldr (fun c n => chunkSize c + n) 0

@[simp] theorem size_mk (buffer : List UInt8) (arrived : List Chunk) (ended : Bool) :
    size ⟨buffer, arrived, ended⟩ = buffer.length + chunksSize arrived :=
  rfl

@[simp] theorem chunksSize_bytes (b : List UInt8) (chunks : List Chunk) :
    chunksSize (.bytes b :: chunks) = b.length + chunksSize chunks :=
  rfl

@[simp] theorem chunksSize_fault (text : String) (chunks : List Chunk) :
    chunksSize (.fault text :: chunks) = 1 + chunksSize chunks :=
  rfl

theorem length_take_add_drop (n : Nat) (bytes : List UInt8) :
    (bytes.take n).length + (bytes.drop n).length = bytes.length := by
  rw [← List.length_append, List.take_append_drop]

/-- A read past the buffer leaves the buffer alone. -/
theorem pull_cases (limit : Nat) (buffer : List UInt8) (ended : Bool) (arrived : List Chunk) :
    (∃ got left, pull limit buffer ended arrived = .ok got ⟨buffer, left, ended⟩ ∧
      got.length + chunksSize left = chunksSize arrived) ∨
    (∃ text left, pull limit buffer ended arrived = .fault text ⟨buffer, left, ended⟩ ∧
      chunksSize left < chunksSize arrived) ∨
    pull limit buffer ended arrived = .starved := by
  induction arrived with
  | nil =>
    unfold pull
    split
    · exact .inl ⟨[], [], rfl, rfl⟩
    · exact .inr (.inr rfl)
  | cons c rest ih =>
    rcases c with (_ | ⟨b, bs⟩) | text
    · simpa [pull] using ih
    · refine .inl ?_
      unfold pull
      simp only
      split
      · exact ⟨b :: bs, rest, rfl, rfl⟩
      · refine ⟨(b :: bs).take limit, .bytes ((b :: bs).drop limit) :: rest,
          by rw [takeBlocks_eq_take], ?_⟩
        rw [chunksSize_bytes, chunksSize_bytes, ← Nat.add_assoc, length_take_add_drop]
    · exact .inr (.inl ⟨text, rest, rfl, by simp⟩)

theorem takes_readSome (limit : Nat) (s : Stream) :
    (readSome limit s).Takes List.length s.size s.ended := by
  obtain ⟨buffer, arrived, ended⟩ := s
  cases buffer with
  | cons b bs =>
    refine ⟨?_, rfl⟩
    rw [size_mk, size_mk, ← Nat.add_assoc, length_take_add_drop]
  | nil =>
    unfold readSome
    simp only
    split
    · obtain ⟨got, left, he, hsize⟩ | ⟨text, left, he, hsize⟩ | he :=
        pull_cases limit [] ended arrived <;> rw [he]
      · exact ⟨by simpa using hsize, rfl⟩
      · exact ⟨by simpa using hsize, rfl⟩
      · trivial
    · obtain ⟨got, left, he, hsize⟩ | ⟨text, left, he, hsize⟩ | he :=
        pull_cases bufferSize [] ended arrived <;> rw [he]
      · refine ⟨?_, rfl⟩
        rw [size_mk, size_mk, ← Nat.add_assoc, length_take_add_drop, hsize, List.length_nil,
          Nat.zero_add]
      · exact ⟨by simpa using hsize, rfl⟩
      · trivial

theorem takes_readByte (s : Stream) :
    s.readByte.Takes (fun b => b.toList.length) s.size s.ended := by
  obtain ⟨buffer, arrived, ended⟩ := s
  cases buffer with
  | cons b bs =>
    refine ⟨?_, rfl⟩
    simp only [size_mk, Option.toList_some, List.length_cons, List.length_nil]
    omega
  | nil =>
    unfold readByte
    obtain ⟨_ | ⟨b, bs⟩, left, he, hsize⟩ | ⟨text, left, he, hsize⟩ | he :=
      pull_cases bufferSize [] ended arrived <;> simp only [he]
    · exact ⟨by simpa using hsize, rfl⟩
    · refine ⟨?_, rfl⟩
      simp only [size_mk, Option.toList_some, List.length_nil, List.length_cons] at hsize ⊢
      omega
    · exact ⟨by simpa using hsize, rfl⟩
    · trivial

/-! ## Lines and bodies -/

theorem takes_readLineFrom (limit : Nat) :
    ∀ (line : List UInt8) (s : Stream),
      (readLineFrom line limit s).Takes List.length (line.length + s.size) s.ended := by
  induction limit with
  | zero => exact fun line s => ⟨by simp, rfl⟩
  | succ limit ih =>
    intro line s
    have h := s.takes_readByte
    unfold readLineFrom
    generalize s.readByte = o at h ⊢
    rcases o with ⟨_ | b, rest⟩ | ⟨text, rest⟩ | _
    · obtain ⟨hsize, hended⟩ := h
      have hrest : rest.size = s.size := (Nat.zero_add _).symm.trans hsize
      exact ⟨by rw [List.length_reverse, hrest], hended⟩
    · obtain ⟨hsize, hended⟩ := h
      have hline : line.length + s.size = (b :: line).length + rest.size := by
        rw [← hsize, List.length_cons, Nat.add_assoc]
        rfl
      rw [hline, ← hended]
      simp only
      split
      · exact ⟨by rw [List.length_reverse], rfl⟩
      · exact ih (b :: line) rest
    · exact ⟨Nat.lt_of_lt_of_le h.1 (Nat.le_add_left ..), h.2⟩
    · trivial

theorem takes_readLine (limit : Nat) (s : Stream) :
    (s.readLine limit).Takes List.length s.size s.ended := by
  rw [← Nat.zero_add s.size]
  exact takes_readLineFrom limit [] s

theorem takes_readAllFrom (most fuel : Nat) :
    ∀ (pieces : List (List UInt8)) (wanted : Nat) (s : Stream),
      (readAllFrom most pieces fuel wanted s).Takes List.length
        (pieces.flatten.length + s.size) s.ended := by
  have hdone (pieces : List (List UInt8)) (s : Stream) :
      (Outcome.ok (assemble pieces) s).Takes List.length
        (pieces.flatten.length + s.size) s.ended :=
    ⟨by simp [assemble_eq_flatten, List.length_flatten], rfl⟩
  induction fuel with
  | zero => exact fun pieces wanted s => hdone pieces s
  | succ fuel ih =>
    intro pieces wanted s
    unfold readAllFrom
    split
    · exact hdone pieces s
    · have h := takes_readSome (min most wanted) s
      generalize readSome (min most wanted) s = o at h ⊢
      rcases o with ⟨got, rest⟩ | ⟨text, rest⟩ | _
      · obtain ⟨hsize, hended⟩ := h
        have hpieces : pieces.flatten.length + s.size =
            (got :: pieces).flatten.length + rest.size := by
          rw [List.flatten_cons, List.length_append]
          omega
        rw [hpieces, ← hended]
        simp only
        split <;> rename_i hgot
        · rw [List.isEmpty_iff.1 hgot]
          exact hdone pieces rest
        · exact ih (got :: pieces) (wanted - got.length) rest
      · exact ⟨Nat.lt_of_lt_of_le h.1 (Nat.le_add_left ..), h.2⟩
      · trivial

theorem takes_readExactly (wanted : Nat) (s : Stream) :
    (s.readExactly wanted).Takes List.length s.size s.ended := by
  rw [← Nat.zero_add s.size]
  exact takes_readAllFrom wanted wanted [] wanted s

theorem takes_skipFrom (fuel : Nat) :
    ∀ (skipped wanted : Nat) (s : Stream),
      (skipFrom skipped fuel wanted s).Takes id (skipped + s.size) s.ended := by
  induction fuel with
  | zero => exact fun skipped wanted s => ⟨rfl, rfl⟩
  | succ fuel ih =>
    intro skipped wanted s
    unfold skipFrom
    split
    · exact ⟨rfl, rfl⟩
    · have h := takes_readSome (min bufferSize wanted) s
      generalize readSome (min bufferSize wanted) s = o at h ⊢
      rcases o with ⟨got, rest⟩ | ⟨text, rest⟩ | _
      · obtain ⟨hsize, hended⟩ := h
        rw [← hsize, ← hended, ← Nat.add_assoc]
        simp only
        split <;> rename_i hgot
        · rw [List.isEmpty_iff.1 hgot]
          exact ⟨rfl, rfl⟩
        · exact ih (skipped + got.length) (wanted - got.length) rest
      · exact ⟨Nat.lt_of_lt_of_le h.1 (Nat.le_add_left ..), h.2⟩
      · trivial

theorem takes_skip (wanted : Nat) (s : Stream) :
    (s.skip wanted).Takes id s.size s.ended := by
  rw [← Nat.zero_add s.size]
  exact takes_skipFrom wanted 0 wanted s

end Stream

/-! ## Frames -/

/-- The reading of a frame takes so much of what is available. -/
def FrameRead.Takes (available : Nat) (ended : Bool) : FrameRead → Prop
  | .frame f rest =>
    (0 < f.headerBytes.length ∧ f.headerBytes.length + f.body.length + rest.size = available) ∧
      rest.ended = ended
  | .finished rest => rest.size ≤ available ∧ rest.ended = ended
  | .failed e rest =>
    (rest.size ≤ available ∧ (e.isFatal = false → rest.size < available)) ∧ rest.ended = ended
  | .starved => True

theorem FrameRead.takes_broken {available : Nat} {ended : Bool} {rest : Stream} (text : String)
    (h : rest.size < available) (hended : rest.ended = ended) :
    (FrameRead.failed (.broken text) rest).Takes available ended :=
  ⟨⟨Nat.le_of_lt h, fun hf => by cases hf⟩, hended⟩

namespace FrameReader

/-- The reading of a header block takes so much of what is available, which is what the block
has and the stream has left. -/
def HeadersRead.Takes (available : Nat) (ended : Bool) : HeadersRead → Prop
  | .headers h rest =>
    (0 < h.bytes.length ∧ h.bytes.length + rest.size = available) ∧ rest.ended = ended
  | .finished rest => rest.size ≤ available ∧ rest.ended = ended
  | .failed e rest =>
    (rest.size ≤ available ∧ (e.isFatal = false → rest.size < available)) ∧ rest.ended = ended
  | .starved => True

theorem HeadersRead.takes_broken {available : Nat} {ended : Bool} {rest : Stream} (text : String)
    (h : rest.size < available) (hended : rest.ended = ended) :
    (HeadersRead.failed (.broken text) rest).Takes available ended :=
  ⟨⟨Nat.le_of_lt h, fun hf => by cases hf⟩, hended⟩

theorem takes_readHeaders (lines : Nat) :
    ∀ (h : Headers) (s : Stream), (lines = 0 → 0 < h.bytes.length) →
      (readHeaders h lines s).Takes (h.bytes.length + s.size) s.ended := by
  induction lines with
  | zero =>
    intro h s hlines
    have hread := s.takes_readLine (maxHeaderLine + 1)
    have hpos := hlines rfl
    unfold readHeaders
    generalize s.readLine (maxHeaderLine + 1) = o at hread ⊢
    rcases o with ⟨line, rest⟩ | ⟨text, rest⟩ | _
    · obtain ⟨hsize, hended⟩ := hread
      simp only
      split <;> exact ⟨⟨by omega, fun _ => by omega⟩, hended⟩
    · exact HeadersRead.takes_broken text (Nat.lt_add_left _ hread.1) hread.2
    · trivial
  | succ lines ih =>
    intro h s _
    have hread := s.takes_readLine (maxHeaderLine + 1)
    unfold readHeaders
    generalize s.readLine (maxHeaderLine + 1) = o at hread ⊢
    rcases o with ⟨line, rest⟩ | ⟨text, rest⟩ | _
    · obtain ⟨hsize, hended⟩ := hread
      simp only
      split <;> rename_i hlong
      · exact ⟨⟨by omega, fun _ => by omega⟩, hended⟩
      split <;> rename_i hempty
      · have hle : rest.size ≤ h.bytes.length + s.size := by omega
        split
        · exact ⟨hle, hended⟩
        · exact ⟨⟨hle, fun hf => by cases hf⟩, hended⟩
      · have hline : 0 < line.length := List.length_pos_iff.2 (by simpa using hempty)
        have hadd : (h.bytes ++ line).length + rest.size = h.bytes.length + s.size := by
          rw [List.length_append]
          omega
        have hpos : 0 < (h.bytes ++ line).length := by
          rw [List.length_append]
          omega
        split
        · exact ⟨⟨hpos, hadd⟩, hended⟩
        · rw [← hadd, ← hended]
          exact ih (h.add line) rest fun _ => hpos
    · exact HeadersRead.takes_broken text (Nat.lt_add_left _ hread.1) hread.2
    · trivial

/-- What is read behind a header block, which has so many bytes. -/
theorem takes_readBody (h : Headers) (length : Nat) (s : Stream) (hpos : 0 < h.bytes.length) :
    (readBody h length s).Takes (h.bytes.length + s.size) s.ended := by
  have hread := s.takes_readExactly length
  unfold readBody
  generalize s.readExactly length = o at hread ⊢
  rcases o with ⟨body, rest⟩ | ⟨text, rest⟩ | _
  · obtain ⟨hsize, hended⟩ := hread
    simp only
    split
    · exact ⟨⟨by omega, fun hf => by cases hf⟩, hended⟩
    · exact ⟨⟨hpos, by simp only; omega⟩, hended⟩
  · exact FrameRead.takes_broken text (Nat.lt_add_left _ hread.1) hread.2
  · trivial

theorem takes_skipBody (h : Headers) (length : Nat) (s : Stream) (hpos : 0 < h.bytes.length) :
    (skipBody length s).Takes (h.bytes.length + s.size) s.ended := by
  have hread := s.takes_skip length
  unfold skipBody
  generalize s.skip length = o at hread ⊢
  rcases o with ⟨skipped, rest⟩ | ⟨text, rest⟩ | _
  · obtain ⟨hsize, hended⟩ := hread
    rw [id] at hsize
    simp only
    split <;> exact ⟨⟨by omega, fun _ => by omega⟩, hended⟩
  · exact FrameRead.takes_broken text (Nat.lt_add_left _ hread.1) hread.2
  · trivial

theorem takes_readAvailable (h : Headers) (s : Stream) (hpos : 0 < h.bytes.length) :
    (readAvailable h s).Takes (h.bytes.length + s.size) s.ended := by
  have hread := s.takes_readSome fallbackBody
  unfold readAvailable
  generalize s.readSome fallbackBody = o at hread ⊢
  rcases o with ⟨body, rest⟩ | ⟨text, rest⟩ | _
  · exact ⟨⟨hpos, by simp only; rw [Nat.add_assoc, hread.1]⟩, hread.2⟩
  · exact FrameRead.takes_broken text (Nat.lt_add_left _ hread.1) hread.2
  · trivial

/-- A frame is its bytes, which are taken, and so is something by each error that is not fatal. -/
theorem takes_readFrame (policy : MissingLength) (s : Stream) :
    (readFrame policy s).Takes s.size s.ended := by
  have hheaders : (readHeaders ⟨[], []⟩ maxHeaderLines s).Takes s.size s.ended := by
    rw [← Nat.zero_add s.size]
    exact takes_readHeaders maxHeaderLines ⟨[], []⟩ s fun h => by cases h
  unfold readFrame
  generalize readHeaders ⟨[], []⟩ maxHeaderLines s = o at hheaders ⊢
  rcases o with ⟨h, rest⟩ | rest | ⟨e, rest⟩ | _
  · obtain ⟨⟨hpos, hsize⟩, hended⟩ := hheaders
    simp only
    rw [← hsize, ← hended]
    split
    · exact ⟨⟨Nat.le_add_left .., fun _ => by omega⟩, rfl⟩
    · split
      · exact takes_skipBody h _ rest hpos
      · exact takes_readBody h _ rest hpos
    · split
      · exact ⟨⟨Nat.le_add_left .., fun _ => by omega⟩, rfl⟩
      · exact takes_readAvailable h rest hpos
  · exact hheaders
  · exact hheaders
  · trivial

end FrameReader

end LanguageClient
