import LanguageClient.Proofs.Frame.Consumption

/-!
# Reading while bytes arrive

A read that does not have to wait gives what it gives, however much arrives
behind what it takes and whether the stream then ends (`Outcome.Grows`). So
the frames of a stream that is read as it arrives are those of the stream that
is read when all of it is there.

* `grows_readFrame`: a reading of a frame, and what arrives behind it.
* `frames`: the frames of a stream, up to where it cannot be read on.
* `Reads`: readings of a stream from one point to another.
-/
namespace LanguageClient

/-- The stream with more behind it, and at its end or not. -/
def Stream.grow (s : Stream) (more : List Chunk) (ended : Bool) : Stream :=
  ⟨s.buffer, s.arrived ++ more, ended⟩

/-- A read that does not have to wait leaves a stream that has not ended, and the other read gives
the same and leaves that stream with more behind it. -/
def Outcome.Grows {α : Type} (more : List Chunk) (ended : Bool) :
    Outcome α → Outcome α → Prop
  | .ok value rest, o => rest.ended = false ∧ o = .ok value (rest.grow more ended)
  | .fault text rest, o => rest.ended = false ∧ o = .fault text (rest.grow more ended)
  | .starved, _ => True

namespace Stream

variable (more : List Chunk) (ended : Bool)

theorem grows_pull (limit : Nat) (buffer : List UInt8) (arrived : List Chunk) :
    (pull limit buffer false arrived).Grows more ended
      (pull limit buffer ended (arrived ++ more)) := by
  induction arrived with
  | nil => trivial
  | cons c rest ih =>
    rcases c with (_ | ⟨b, bs⟩) | text
    · exact ih
    · rw [List.cons_append]
      unfold pull
      simp only
      split <;> exact ⟨rfl, rfl⟩
    · exact ⟨rfl, rfl⟩

variable {s : Stream} (hs : s.ended = false)
include hs

theorem grows_readSome (limit : Nat) :
    (s.readSome limit).Grows more ended ((s.grow more ended).readSome limit) := by
  obtain ⟨buffer, arrived, _⟩ := s
  subst hs
  cases buffer with
  | cons b bs => exact ⟨rfl, rfl⟩
  | nil =>
    unfold readSome grow
    simp only
    split
    · exact grows_pull more ended limit [] arrived
    · have h := grows_pull more ended bufferSize [] arrived
      generalize pull bufferSize [] false arrived = o at h ⊢
      rcases o with ⟨got, rest⟩ | ⟨text, rest⟩ | _
      · rw [h.2]
        exact ⟨h.1, rfl⟩
      · rw [h.2]
        exact ⟨h.1, rfl⟩
      · trivial

theorem grows_readByte : s.readByte.Grows more ended (s.grow more ended).readByte := by
  obtain ⟨buffer, arrived, _⟩ := s
  subst hs
  cases buffer with
  | cons b bs => exact ⟨rfl, rfl⟩
  | nil =>
    unfold readByte grow
    simp only
    have h := grows_pull more ended bufferSize [] arrived
    generalize pull bufferSize [] false arrived = o at h ⊢
    rcases o with ⟨_ | ⟨b, bs⟩, rest⟩ | ⟨text, rest⟩ | _
    · rw [h.2]
      exact ⟨h.1, rfl⟩
    · rw [h.2]
      exact ⟨h.1, rfl⟩
    · rw [h.2]
      exact ⟨h.1, rfl⟩
    · trivial

omit hs in
theorem grows_readLineFrom (limit : Nat) :
    ∀ (line : List UInt8) {s : Stream}, s.ended = false →
      (readLineFrom line limit s).Grows more ended
        (readLineFrom line limit (s.grow more ended)) := by
  induction limit with
  | zero => exact fun line s hs => ⟨hs, rfl⟩
  | succ limit ih =>
    intro line s hs
    have h := grows_readByte more ended hs
    unfold readLineFrom
    generalize s.readByte = o at h ⊢
    rcases o with ⟨_ | b, rest⟩ | ⟨text, rest⟩ | _
    · rw [h.2]
      exact ⟨h.1, rfl⟩
    · rw [h.2]
      simp only
      split
      · exact ⟨h.1, rfl⟩
      · exact ih (b :: line) h.1
    · rw [h.2]
      exact ⟨h.1, rfl⟩
    · trivial

theorem grows_readLine (limit : Nat) :
    (s.readLine limit).Grows more ended ((s.grow more ended).readLine limit) :=
  grows_readLineFrom more ended limit [] hs

omit hs in
theorem grows_readAllFrom (most fuel : Nat) :
    ∀ (pieces : List (List UInt8)) (wanted : Nat) {s : Stream}, s.ended = false →
      (readAllFrom most pieces fuel wanted s).Grows more ended
        (readAllFrom most pieces fuel wanted (s.grow more ended)) := by
  induction fuel with
  | zero => exact fun pieces wanted s hs => ⟨hs, rfl⟩
  | succ fuel ih =>
    intro pieces wanted s hs
    have h := grows_readSome more ended hs (min most wanted)
    unfold readAllFrom
    split
    · exact ⟨hs, rfl⟩
    · generalize s.readSome (min most wanted) = o at h ⊢
      rcases o with ⟨got, rest⟩ | ⟨text, rest⟩ | _
      · rw [h.2]
        simp only
        split
        · exact ⟨h.1, rfl⟩
        · exact ih (got :: pieces) (wanted - got.length) h.1
      · rw [h.2]
        exact ⟨h.1, rfl⟩
      · trivial

theorem grows_readExactly (wanted : Nat) :
    (s.readExactly wanted).Grows more ended ((s.grow more ended).readExactly wanted) :=
  grows_readAllFrom more ended wanted wanted [] wanted hs

omit hs in
theorem grows_skipFrom (fuel : Nat) :
    ∀ (skipped wanted : Nat) {s : Stream}, s.ended = false →
      (skipFrom skipped fuel wanted s).Grows more ended
        (skipFrom skipped fuel wanted (s.grow more ended)) := by
  induction fuel with
  | zero => exact fun skipped wanted s hs => ⟨hs, rfl⟩
  | succ fuel ih =>
    intro skipped wanted s hs
    have h := grows_readSome more ended hs (min bufferSize wanted)
    unfold skipFrom
    split
    · exact ⟨hs, rfl⟩
    · generalize s.readSome (min bufferSize wanted) = o at h ⊢
      rcases o with ⟨got, rest⟩ | ⟨text, rest⟩ | _
      · rw [h.2]
        simp only
        split
        · exact ⟨h.1, rfl⟩
        · exact ih (skipped + got.length) (wanted - got.length) h.1
      · rw [h.2]
        exact ⟨h.1, rfl⟩
      · trivial

theorem grows_skip (wanted : Nat) :
    (s.skip wanted).Grows more ended ((s.grow more ended).skip wanted) :=
  grows_skipFrom more ended wanted 0 wanted hs

end Stream

/-- A reading of a frame that does not have to wait leaves a stream that has not ended, and the
other reading gives the same and leaves that stream with more behind it. -/
def FrameRead.Grows (more : List Chunk) (ended : Bool) : FrameRead → FrameRead → Prop
  | .frame f rest, o => rest.ended = false ∧ o = .frame f (rest.grow more ended)
  | .finished rest, o => rest.ended = false ∧ o = .finished (rest.grow more ended)
  | .failed e rest, o => rest.ended = false ∧ o = .failed e (rest.grow more ended)
  | .starved, _ => True

namespace FrameReader

/-- The same of the reading of a header block. -/
def HeadersRead.Grows (more : List Chunk) (ended : Bool) : HeadersRead → HeadersRead → Prop
  | .headers h rest, o => rest.ended = false ∧ o = .headers h (rest.grow more ended)
  | .finished rest, o => rest.ended = false ∧ o = .finished (rest.grow more ended)
  | .failed e rest, o => rest.ended = false ∧ o = .failed e (rest.grow more ended)
  | .starved, _ => True

variable (more : List Chunk) (ended : Bool)

theorem grows_readHeaders (lines : Nat) :
    ∀ (h : Headers) {s : Stream}, s.ended = false →
      (readHeaders h lines s).Grows more ended (readHeaders h lines (s.grow more ended)) := by
  induction lines with
  | zero =>
    intro h s hs
    have hline := s.grows_readLine more ended hs (maxHeaderLine + 1)
    unfold readHeaders
    generalize s.readLine (maxHeaderLine + 1) = o at hline ⊢
    rcases o with ⟨line, rest⟩ | ⟨text, rest⟩ | _
    · rw [hline.2]
      simp only
      split <;> exact ⟨hline.1, rfl⟩
    · rw [hline.2]
      exact ⟨hline.1, rfl⟩
    · trivial
  | succ lines ih =>
    intro h s hs
    have hline := s.grows_readLine more ended hs (maxHeaderLine + 1)
    unfold readHeaders
    generalize s.readLine (maxHeaderLine + 1) = o at hline ⊢
    rcases o with ⟨line, rest⟩ | ⟨text, rest⟩ | _
    · rw [hline.2]
      simp only
      repeat' split
      all_goals first | exact ⟨hline.1, rfl⟩ | exact ih (h.add line) hline.1
    · rw [hline.2]
      exact ⟨hline.1, rfl⟩
    · trivial

section Reading

variable {s : Stream} (hs : s.ended = false)
include hs

theorem grows_readBody (h : Headers) (length : Nat) :
    (readBody h length s).Grows more ended (readBody h length (s.grow more ended)) := by
  have hread := s.grows_readExactly more ended hs length
  unfold readBody
  generalize s.readExactly length = o at hread ⊢
  rcases o with ⟨body, rest⟩ | ⟨text, rest⟩ | _
  · rw [hread.2]
    simp only
    split <;> exact ⟨hread.1, rfl⟩
  · rw [hread.2]
    exact ⟨hread.1, rfl⟩
  · trivial

theorem grows_skipBody (length : Nat) :
    (skipBody length s).Grows more ended (skipBody length (s.grow more ended)) := by
  have hread := s.grows_skip more ended hs length
  unfold skipBody
  generalize s.skip length = o at hread ⊢
  rcases o with ⟨skipped, rest⟩ | ⟨text, rest⟩ | _
  · rw [hread.2]
    simp only
    split <;> exact ⟨hread.1, rfl⟩
  · rw [hread.2]
    exact ⟨hread.1, rfl⟩
  · trivial

theorem grows_readAvailable (h : Headers) :
    (readAvailable h s).Grows more ended (readAvailable h (s.grow more ended)) := by
  have hread := s.grows_readSome more ended hs fallbackBody
  unfold readAvailable
  generalize s.readSome fallbackBody = o at hread ⊢
  rcases o with ⟨body, rest⟩ | ⟨text, rest⟩ | _
  · rw [hread.2]
    exact ⟨hread.1, rfl⟩
  · rw [hread.2]
    exact ⟨hread.1, rfl⟩
  · trivial

/-- What arrives behind a frame makes no difference to its reading, nor whether the stream ends
there. -/
theorem grows_readFrame (policy : MissingLength) :
    (readFrame policy s).Grows more ended (readFrame policy (s.grow more ended)) := by
  have hheaders := grows_readHeaders more ended maxHeaderLines ⟨[], []⟩ hs
  unfold readFrame
  generalize readHeaders ⟨[], []⟩ maxHeaderLines s = o at hheaders ⊢
  rcases o with ⟨h, rest⟩ | rest | ⟨e, rest⟩ | _
  · rw [hheaders.2]
    simp only
    split
    · exact ⟨hheaders.1, rfl⟩
    · split
      · exact grows_skipBody more ended hheaders.1 _
      · exact grows_readBody more ended hheaders.1 h _
    · split
      · exact ⟨hheaders.1, rfl⟩
      · exact grows_readAvailable more ended hheaders.1 h
  · rw [hheaders.2]
    exact ⟨hheaders.1, rfl⟩
  · rw [hheaders.2]
    exact ⟨hheaders.1, rfl⟩
  · trivial

end Reading

/-! ## The frames of a stream -/

/-- The frames of a stream. One that cannot be read is left out, unless nothing can be read behind
it; where a reading has to wait there are no more. -/
def frames (policy : MissingLength) (s : Stream) : List Frame :=
  match _hread : readFrame policy s with
  | .frame f rest => f :: frames policy rest
  | .failed e rest => if e.isFatal then [] else frames policy rest
  | .finished _ => []
  | .starved => []
  termination_by s.size
  decreasing_by
    · have htakes := takes_readFrame policy s
      rw [_hread] at htakes
      obtain ⟨⟨hpos, hsize⟩, -⟩ := htakes
      omega
    · have htakes := takes_readFrame policy s
      rw [_hread] at htakes
      exact htakes.1.2 (by simp_all)

variable {policy : MissingLength} {s s' rest : Stream}

theorem frames_of_frame {f : Frame} (h : readFrame policy s = .frame f rest) :
    frames policy s = f :: frames policy rest := by
  rw [frames]
  split <;> rename_i he <;> rw [h] at he <;> cases he
  rfl

theorem frames_of_failed {e : FrameError} (h : readFrame policy s = .failed e rest)
    (hfatal : e.isFatal = false) : frames policy s = frames policy rest := by
  rw [frames]
  split <;> rename_i he <;> rw [h] at he <;> cases he
  rw [if_neg (by rw [hfatal]; exact Bool.false_ne_true)]

theorem frames_of_starved (h : readFrame policy s = .starved) : frames policy s = [] := by
  rw [frames]
  split <;> rename_i he <;> first | rfl | (rw [h] at he; cases he)

/-- Whether nothing can be read any more, however much arrives. -/
def Ends (policy : MissingLength) (s : Stream) : Prop :=
  (∃ rest, readFrame policy s = .finished rest) ∨
    ∃ e rest, readFrame policy s = .failed e rest ∧ e.isFatal = true

theorem Ends.frames (h : Ends policy s) : frames policy s = [] := by
  rw [FrameReader.frames]
  rcases h with ⟨_, h⟩ | ⟨_, _, h, hfatal⟩
  · split <;> rename_i he <;> first | rfl | (rw [h] at he; cases he)
  · split <;> rename_i he <;> rw [h] at he <;> cases he
    rw [if_pos hfatal]

theorem Ends.grow (h : Ends policy s) (hs : s.ended = false) (more : List Chunk)
    (ended : Bool) : Ends policy (s.grow more ended) := by
  have hgrows := grows_readFrame more ended hs policy
  rcases h with ⟨rest, h⟩ | ⟨e, rest, h, hfatal⟩ <;> rw [h] at hgrows
  · exact .inl ⟨_, hgrows.2⟩
  · exact .inr ⟨e, _, hgrows.2, hfatal⟩

/-- Readings lead from a stream to another and give some frames. -/
inductive Reads (policy : MissingLength) (s : Stream) : List Frame → Stream → Prop
  | refl : Reads policy s [] s
  | frame {fs : List Frame} {s' rest : Stream} {f : Frame} (h : Reads policy s fs s')
      (hread : readFrame policy s' = .frame f rest) : Reads policy s (fs ++ [f]) rest
  | failed {fs : List Frame} {s' rest : Stream} {e : FrameError} (h : Reads policy s fs s')
      (hread : readFrame policy s' = .failed e rest) (hfatal : e.isFatal = false) :
      Reads policy s fs rest

variable {fs : List Frame}

theorem Reads.frames (h : Reads policy s fs s') : frames policy s = fs ++ frames policy s' := by
  induction h with
  | refl => rfl
  | frame _ hread ih => rw [ih, frames_of_frame hread, List.append_assoc, List.singleton_append]
  | failed _ hread hfatal ih => rw [ih, frames_of_failed hread hfatal]

/-- While more arrives, the readings that were done are those of the stream with what arrived. -/
theorem Reads.grow (h : Reads policy s fs s') (hs : s.ended = false) (more : List Chunk)
    (ended : Bool) :
    s'.ended = false ∧ Reads policy (s.grow more ended) fs (s'.grow more ended) := by
  induction h with
  | refl => exact ⟨hs, .refl⟩
  | frame _ hread ih =>
    have hgrows := grows_readFrame more ended ih.1 policy
    rw [hread] at hgrows
    exact ⟨hgrows.1, ih.2.frame hgrows.2⟩
  | failed _ hread hfatal ih =>
    have hgrows := grows_readFrame more ended ih.1 policy
    rw [hread] at hgrows
    exact ⟨hgrows.1, ih.2.failed hgrows.2 hfatal⟩

end FrameReader

end LanguageClient
