import LanguageClient.Proofs.Frame.Decoy

/-!
# Reading on behind a rejected frame

A frame that is rejected stays in the stream from the point where it was
rejected: the rest of a line, the rest of its block, its body. The next reading
takes that for a header block. Where what is left is `Spent`, a row of pieces
that are refused in their turn, the frames behind it are found again. Where it
is not, it gives a body of its own, or it runs into the frames behind it.

* `delivered_or_lost`: both halves, for every frame that is rejected.
* `lost_behind_nope`: a frame that is lost behind a length that is no number.
-/
namespace LanguageClient

open FrameReader RawFrame

/-! ## What a rejected frame leaves -/

/-- Bytes that are a row of refused pieces, up to their last byte. -/
inductive Spent : List UInt8 → Prop
  | nil : Spent []
  | refused {piece more : List UInt8} {e : FrameError} (hpiece : Refused piece e)
      (hmore : Spent more) : Spent (piece ++ more)

/-- A frame that is well-formed, or is rejected and leaves what is spent. -/
def Harmless (f : RawFrame) : Prop :=
  f.WellFormed ∨ ∃ e left, f.rejection? = some (e, left) ∧ Spent left

/-- The bodies of the well-formed ones among some frames. -/
def wellFormedBodies (frames : List RawFrame) : List (List UInt8) :=
  (frames.filter fun f => f.WellFormed).map RawFrame.body

/-- However a stream of these frames is cut, the bodies that are read are those of the well-formed
ones, no error is fatal, and then the stream is at its end. -/
def Delivered (frames : List RawFrame) : Prop :=
  ∀ pieces : List (List UInt8), pieces.flatten = (frames.map RawFrame.bytes).flatten →
    ∃ results, bodies results = wellFormedBodies frames ∧
      (∀ e, .error e ∈ results → e.isFatal = false) ∧
      ∀ calls, successive .reject (results.length + calls) (.ofChunks (pieces.map .bytes)) =
        results ++ List.replicate calls (.ok none)

/-- However a stream of these frames is cut, the bodies that are read are, from some call on, never
those of the well-formed ones. -/
def Lost (frames : List RawFrame) : Prop :=
  ∀ pieces : List (List UInt8), pieces.flatten = (frames.map RawFrame.bytes).flatten →
    ∃ first, ∀ calls,
      bodies (successive .reject (first + calls) (.ofChunks (pieces.map .bytes))) ≠
        wellFormedBodies frames

/-! ## What is spent costs errors only -/

theorem not_isFatal_of_refusal? {accepted : Nat} {lines : List (List UInt8)} {e : FrameError}
    {left : List UInt8} (h : refusal? accepted lines = some (e, left)) : e.isFatal = false := by
  fun_induction refusal? accepted lines with
  | case1 => cases h
  | case2 => cases h; rfl
  | case3 => cases h; rfl
  | case4 accepted line lines _ ih => exact ih h

theorem not_isFatal_of_rejection? {f : RawFrame} {e : FrameError} {left : List UInt8}
    (h : f.rejection? = some (e, left)) : e.isFatal = false := by
  unfold rejection? at h
  split at h
  · next hrefused => cases h; exact not_isFatal_of_refusal? hrefused
  · split at h
    · next hlength =>
      cases h
      unfold length? at hlength
      split at hlength
      · cases hlength
      · split at hlength <;> cases hlength; rfl
    · cases h; rfl
    · cases h

theorem Refused.not_isFatal {piece : List UInt8} {e : FrameError} (h : Refused piece e) :
    e.isFatal = false := by
  cases h with
  | overlong => rfl
  | extra => rfl
  | unmeasured f e hf => exact not_isFatal_of_rejection? hf
  | oversized => rfl

theorem Refused.ne_nil {piece : List UInt8} {e : FrameError} (h : Refused piece e) :
    piece ≠ [] := by
  cases h with
  | overlong lines text _ _ htext =>
    have : text ≠ [] := by
      rintro rfl
      cases htext.1
    simp [this]
  | extra lines line _ _ hline _ => simp [hline.ne_nil]
  | unmeasured f => exact f.bytes_ne_nil
  | oversized f => exact f.bytes_ne_nil

/-- What some bytes yield: these bodies, and no error that is fatal. -/
def YieldsBodies (bytes : List UInt8) (expected : List (List UInt8)) : Prop :=
  ∃ results, Yields .reject bytes results ∧ bodies results = expected ∧
    ∀ e, .error e ∈ results → e.isFatal = false

theorem YieldsBodies.append {bytes bytes' : List UInt8} {expected expected' : List (List UInt8)}
    (h : YieldsBodies bytes expected) (h' : YieldsBodies bytes' expected') :
    YieldsBodies (bytes ++ bytes') (expected ++ expected') := by
  obtain ⟨results, hyields, hbodies, hfatal⟩ := h
  obtain ⟨results', hyields', hbodies', hfatal'⟩ := h'
  refine ⟨results ++ results', hyields.append hyields', ?_, fun e he => ?_⟩
  · rw [bodies_append, hbodies, hbodies']
  · exact (List.mem_append.1 he).elim (hfatal e) (hfatal' e)

/-- A reading that fails costs no body. -/
theorem yieldsBodies_error {bytes : List UInt8} {e : FrameError} (hfatal : e.isFatal = false)
    (h : Yields .reject bytes [.error e]) : YieldsBodies bytes [] :=
  ⟨_, h, rfl, fun e' he' => by cases List.mem_singleton.1 he'; exact hfatal⟩

theorem Spent.yieldsBodies {left : List UInt8} (h : Spent left) : YieldsBodies left [] := by
  induction h with
  | nil => exact ⟨[], yields_nil _, rfl, fun _ he => by cases he⟩
  | refused hpiece _ ih =>
    exact (yieldsBodies_error hpiece.not_isFatal (gives_refused hpiece).yields).append ih

/-- A frame that is rejected yields its error, and then what it leaves. -/
theorem yields_rejected {f : RawFrame} {e : FrameError} {left : List UInt8}
    {results : List FrameResult} (hf : f.rejection? = some (e, left))
    (h : Yields .reject left results) : Yields .reject f.bytes (.error e :: results) := by
  intro s more hs
  obtain ⟨behind, he, hbehind⟩ := readFrame_rejected hf hs
  obtain ⟨rest, hrest, hrun⟩ := h behind more hbehind
  refine ⟨rest, hrest, fun calls => ?_⟩
  rw [List.length_cons, Nat.add_right_comm, successive_failed he, hrun, List.cons_append]

theorem wellFormedBodies_cons (f : RawFrame) (frames : List RawFrame) :
    wellFormedBodies (f :: frames) = wellFormedBodies [f] ++ wellFormedBodies frames := by
  by_cases hf : f.WellFormed <;> simp [wellFormedBodies, hf]

theorem wellFormedBodies_rejected {f : RawFrame} {e : FrameError} {left : List UInt8}
    (hf : f.rejection? = some (e, left)) : wellFormedBodies [f] = [] := by
  have hnot : ¬ f.WellFormed := fun h => by
    rw [rejection?, h.accepted] at hf
    simp only [h.length] at hf
    cases hf
  simp [wellFormedBodies, hnot]

theorem Harmless.yieldsBodies {f : RawFrame} (h : Harmless f) :
    YieldsBodies f.bytes (wellFormedBodies [f]) := by
  rcases h with hf | ⟨e, left, hf, hleft⟩
  · have hbodies : wellFormedBodies [f] = [f.body] := by simp [wellFormedBodies, hf]
    rw [hbodies]
    exact ⟨_, (gives_wellFormed .reject hf).yields, rfl, fun _ he => by
      cases List.mem_singleton.1 he⟩
  · obtain ⟨results, hyields, hbodies, hfatal⟩ := hleft.yieldsBodies
    rw [wellFormedBodies_rejected hf]
    refine ⟨_, yields_rejected hf hyields, hbodies, fun e' he' => ?_⟩
    rcases List.mem_cons.1 he' with he' | he'
    · cases he'
      exact not_isFatal_of_rejection? hf
    · exact hfatal e' he'

theorem yieldsBodies_frames {frames : List RawFrame} (h : ∀ f ∈ frames, Harmless f) :
    YieldsBodies (frames.map RawFrame.bytes).flatten (wellFormedBodies frames) := by
  induction frames with
  | nil => exact ⟨[], yields_nil _, rfl, fun _ he => by cases he⟩
  | cons f frames ih =>
    rw [List.map_cons, List.flatten_cons, wellFormedBodies_cons]
    exact (h f (by simp)).yieldsBodies.append (ih fun g hg => h g (List.mem_cons_of_mem _ hg))

theorem delivered_of_harmless {frames : List RawFrame} (h : ∀ f ∈ frames, Harmless f) :
    Delivered frames := by
  intro pieces hcut
  obtain ⟨results, hyields, hbodies, hfatal⟩ := yieldsBodies_frames h
  have hs := Stream.holds_ofChunks pieces
  rw [hcut] at hs
  exact ⟨results, hbodies, hfatal, successive_of_yields hyields hs⟩

/-! ## What is not spent costs a body, or gives one -/

theorem wellFormedBodies_decoy : wellFormedBodies [decoy] = [decoy.body] := by
  simp [wellFormedBodies, decoy_wellFormed]

/-- Behind what is not spent there can be frames whose bodies are not what is read. -/
theorem exists_lost_of_not_spent (left : List UInt8) (h : ¬ Spent left) :
    ∃ behind : List RawFrame, (∀ g ∈ behind, g.WellFormed ∧ g.body ≠ []) ∧
      ∀ s : Stream, s.Holds (left ++ (behind.map RawFrame.bytes).flatten) →
        ∃ first, ∀ calls,
          bodies (successive .reject (first + calls) s) ≠ wellFormedBodies behind := by
  obtain hopen | ⟨piece, e, more, hpiece, hcut⟩ | ⟨f, more, hf, hcut⟩ := reading_cases left
  · -- It runs into a decoy.
    have hne : left ≠ [] := by
      rintro rfl
      exact h .nil
    refine ⟨[decoy], fun g hg => ?_, fun s hs => ⟨0, fun calls => ?_⟩⟩
    · obtain rfl := List.mem_singleton.1 hg
      exact ⟨decoy_wellFormed, by simp [decoy, decoyFrom]⟩
    · rw [List.map_singleton, List.flatten_singleton] at hs
      rw [wellFormedBodies_decoy, Nat.zero_add]
      exact bodies_decoy hopen hne hs calls
  · -- Behind a refused piece there is still something that is not spent.
    have hmore : ¬ Spent more := fun hmore => h (hcut ▸ .refused hpiece hmore)
    obtain ⟨behind, hbehind, hlost⟩ := exists_lost_of_not_spent more hmore
    refine ⟨behind, hbehind, fun s hs => ?_⟩
    rw [hcut, List.append_assoc] at hs
    obtain ⟨rest, he, hrest⟩ := gives_refused hpiece s _ hs
    obtain ⟨first, hfirst⟩ := hlost rest hrest
    refine ⟨first + 1, fun calls => ?_⟩
    rw [Nat.add_right_comm, successive_succ he, bodies_error]
    exact hfirst calls
  · -- It gives a body of its own.
    refine ⟨[], by simp, fun s hs => ?_⟩
    rw [hcut, List.append_assoc] at hs
    obtain ⟨rest, he, -⟩ := gives_wellFormed .reject hf s _ hs
    refine ⟨1, fun calls => ?_⟩
    rw [Nat.add_comm, successive_succ he, bodies_frame]
    exact List.cons_ne_nil _ _
termination_by left.length
decreasing_by
  have := List.length_pos_iff.2 hpiece.ne_nil
  rw [hcut, List.length_append]
  omega

/-- Behind a frame that is rejected, and between frames that are well-formed or harmless, all bodies
are delivered if what it leaves is spent. Otherwise there are well-formed frames with which they are
not. -/
theorem delivered_or_lost {f : RawFrame} {e : FrameError} {left : List UInt8}
    (hf : f.rejection? = some (e, left)) :
    (Spent left → ∀ before behind : List RawFrame,
      (∀ g ∈ before ++ behind, Harmless g) → Delivered (before ++ f :: behind)) ∧
    (¬ Spent left → ∃ behind : List RawFrame,
      (∀ g ∈ behind, g.WellFormed ∧ g.body ≠ []) ∧ Lost (f :: behind)) := by
  constructor
  · intro hleft before behind hothers
    refine delivered_of_harmless fun g hg => ?_
    rcases List.mem_append.1 hg with hg | hg
    · exact hothers g (List.mem_append_left _ hg)
    · rcases List.mem_cons.1 hg with rfl | hg
      · exact .inr ⟨e, left, hf, hleft⟩
      · exact hothers g (List.mem_append_right _ hg)
  · intro hleft
    obtain ⟨behind, hbehind, hlost⟩ := exists_lost_of_not_spent left hleft
    refine ⟨behind, hbehind, fun pieces hcut => ?_⟩
    have hs := Stream.holds_ofChunks pieces
    rw [hcut, List.map_cons, List.flatten_cons] at hs
    obtain ⟨rest, he, hrest⟩ := readFrame_rejected hf hs
    obtain ⟨first, hfirst⟩ := hlost rest hrest
    refine ⟨first + 1, fun calls => ?_⟩
    rw [Nat.add_right_comm, successive_failed he, bodies_error, wellFormedBodies_cons,
      wellFormedBodies_rejected hf]
    exact hfirst calls

/-! ## A length that is no number -/

theorem isHeader_nope : IsHeader (Utf8.ofString "Content-Length: nope\r\n") := by decide

/-- A frame whose length is no number. -/
def nope (body : List UInt8) : RawFrame where
  lines := [Utf8.ofString "Content-Length: nope\r\n"]
  blank := [0x0D, 0x0A]
  body := body
  isLine := List.forall_mem_singleton.2 ⟨isHeader_nope.1, isHeader_nope.2.1⟩
  isBlank := isBlankLine_end

/-- A frame behind it. -/
def answer : RawFrame :=
  .encoded (Utf8.ofString "\x7b\"id\":4\x7d")

theorem answer_wellFormed : answer.WellFormed :=
  ⟨givesLength_encoded (by decide), by decide⟩

/-- A line feed is a header block of its own, without a length. -/
theorem spent_feed : Spent [0x0A] :=
  .refused (.unmeasured ⟨[], [0x0A], [], by simp, rfl⟩ .missingLength (by decide)) .nil

/-- Around a frame with nothing but a line feed behind its block, both frames are found. -/
theorem delivered_around_nope :
    (nope [0x0A]).rejection? = some (.invalidLength "nope", [0x0A]) ∧
      Delivered [answer, nope [0x0A], answer] := by
  have hf : (nope [0x0A]).rejection? = some (.invalidLength "nope", [0x0A]) := by decide +kernel
  refine ⟨hf, (delivered_or_lost hf).1 spent_feed [answer] [answer] fun g hg => ?_⟩
  obtain rfl : g = answer := by simpa using hg
  exact .inl answer_wellFormed

theorem isHeader_glued : IsHeader (Utf8.ofString "\x7b\x7dContent-Length: 8\r\n") := by decide

/-- The frame behind the body that is left: the two make one header line, and there is no length. -/
def glued : RawFrame where
  lines := [Utf8.ofString "\x7b\x7dContent-Length: 8\r\n"]
  blank := [0x0D, 0x0A]
  body := Utf8.ofString "\x7b\"id\":4\x7d"
  isLine := List.forall_mem_singleton.2 ⟨isHeader_glued.1, isHeader_glued.2.1⟩
  isBlank := isBlankLine_end

/-- Behind a frame whose length is no number a well-formed frame is lost: what was its body is read
as the beginning of the next header line, and the next body as a header block that does not end. -/
theorem lost_behind_nope :
    let frames := [nope (Utf8.ofString "\x7b\x7d"), answer]
    (∀ f ∈ frames, f.body ≠ []) ∧
      (nope (Utf8.ofString "\x7b\x7d")).rejection? =
        some (.invalidLength "nope", Utf8.ofString "\x7b\x7d") ∧
      answer.WellFormed ∧
      successive .reject 4 (.ofChunks [.bytes (frames.map RawFrame.bytes).flatten]) =
        [.error (.invalidLength "nope"), .error .missingLength, .error (.truncated .headers),
          .ok none] ∧
      Lost frames := by
  have hf : (nope (Utf8.ofString "\x7b\x7d")).rejection? =
      some (.invalidLength "nope", Utf8.ofString "\x7b\x7d") := by decide +kernel
  refine ⟨by decide, hf, answer_wellFormed, by decide +kernel, fun pieces hcut => ⟨3, ?_⟩⟩
  intro calls
  have hglued : Utf8.ofString "\x7b\x7d" ++ answer.bytes = glued.bytes := by decide +kernel
  have hmissing : glued.rejection? = some (.missingLength, glued.body) := by decide +kernel
  have hopen : Unfinished glued.body := .headers [] _ (by simp) (by decide) (by decide) (by decide)
  have hs := Stream.holds_ofChunks pieces
  rw [hcut, List.map_cons, List.flatten_cons] at hs
  obtain ⟨rest, he, hrest⟩ := readFrame_rejected hf hs
  rw [List.map_singleton, List.flatten_singleton, hglued, ← List.append_nil glued.bytes] at hrest
  obtain ⟨rest', he', hrest'⟩ := readFrame_rejected hmissing hrest
  rw [List.append_nil] at hrest'
  obtain ⟨e, rest'', he'', hrest''⟩ := readFrame_unfinished hopen (by decide) hrest'
  have hnone : bodies (successive .reject (calls + 1 + 1 + 1) (.ofChunks (pieces.map .bytes))) =
      [] := by
    rw [successive_failed he, successive_failed he', successive_failed he'',
      successive_end _ hrest'', bodies_error, bodies_error, bodies_error, bodies_replicate]
  have hsome : wellFormedBodies [answer] = [answer.body] := by
    simp [wellFormedBodies, answer_wellFormed]
  rw [Nat.add_comm 3 calls, hnone, wellFormedBodies_cons, wellFormedBodies_rejected hf, hsome]
  exact (List.cons_ne_nil _ _).symm

end LanguageClient
