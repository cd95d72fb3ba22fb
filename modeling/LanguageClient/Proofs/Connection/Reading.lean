import LanguageClient.Proofs.Connection.Exchange
import LanguageClient.Proofs.Frame.Progress

/-!
# The read loop ends

The read loop asks for frame after frame, and goes on after every error that
is not fatal. Each such reading takes at least one byte, so on a stream that
ends the loop ends too, whatever the bytes are and however they arrived: with
the frames in the queue, and `closed` behind them.

* `readStep?_next`, `readStep?_last`: a step of the loop by the result of its
  reading.
* `repeatStep_of_terminates`: the loop ends with the last result.
* `reading_ends`: every stream has one.
-/
namespace LanguageClient

theorem Stream.Holds.size_eq {s : Stream} {bytes : List UInt8} (hs : s.Holds bytes) :
    s.size = bytes.length := by
  obtain ⟨buffer, arrived, ended⟩ := s
  obtain ⟨-, pieces, rfl, rfl⟩ := hs
  have hpieces : chunksSize (pieces.map .bytes) = pieces.flatten.length := by
    induction pieces with
    | nil => rfl
    | cons piece pieces ih =>
      rw [List.map_cons, chunksSize_bytes, ih, List.flatten_cons, List.length_append]
  rw [size_mk, hpieces, List.length_append]

namespace Connection

open FrameReader

variable {c : Connection} {left : Stream} {result last : FrameResult} {results : List FrameResult}

/-! ## The loop -/

/-- A result behind which the loop goes on leaves its frame, if it is one. -/
theorem readStep?_next (hr : c.isReading = true)
    (hread : (readFrame c.policy c.stream).result? = some (result, left))
    (hnext : isLast result = false) :
    c.readStep? =
      some { c with stream := left, inbound := c.inbound ++ (given [result]).map .frame } := by
  unfold readStep?
  rw [if_pos hr]
  cases hframe : readFrame c.policy c.stream with
  | frame f rest =>
    rw [hframe] at hread
    cases hread
    rfl
  | finished rest =>
    rw [hframe] at hread
    cases hread
    cases hnext
  | failed e rest =>
    rw [hframe] at hread
    cases hread
    have hgoes : ¬ e.isFatal = true := Bool.eq_false_iff.1 hnext
    simp [hgoes, given]
  | starved =>
    rw [hframe] at hread
    cases hread

theorem readStep?_last (hr : c.isReading = true)
    (hread : (readFrame c.policy c.stream).result? = some (last, left))
    (hlast : isLast last = true) :
    c.readStep? = some { c with stream := left }.endReading := by
  unfold readStep?
  rw [if_pos hr]
  cases hframe : readFrame c.policy c.stream <;> rw [hframe] at hread <;> cases hread
  · cases hlast
  · rfl
  · exact if_pos hlast

theorem repeatStep_of_none {step? : Connection → Option Connection} (h : step? c = none)
    (fuel : Nat) : repeatStep step? fuel c = c := by
  cases fuel with
  | zero => rfl
  | succ fuel => simp only [repeatStep, h]

theorem repeatStep_of_some {step? : Connection → Option Connection} {c' : Connection}
    (h : step? c = some c') (fuel : Nat) :
    repeatStep step? (fuel + 1) c = repeatStep step? fuel c' := by
  simp only [repeatStep, h]

/-- The loop takes a step for each result; with the last one it ends, and leaves `closed` behind
the frames. -/
theorem repeatStep_of_terminates {policy : MissingLength} {s : Stream}
    (h : Terminates policy s results last) :
    ∀ {c : Connection} {fuel : Nat}, c.policy = policy → c.stream = s → c.isReading = true →
      results.length < fuel →
      (repeatStep readStep? fuel c).isReading = false ∧
      (repeatStep readStep? fuel c).inbound =
        c.inbound ++ (given results).map .frame ++ [.closed] := by
  induction h with
  | last hread hlast =>
    rintro c (_ | fuel) rfl rfl hr hfuel
    · cases hfuel
    · rw [repeatStep_of_some (readStep?_last hr hread hlast),
        repeatStep_of_none (readStep?_of_ended rfl)]
      exact ⟨rfl, by simp [endReading, given]⟩
  | @next s left result last results hread hnext _ ih =>
    rintro c (_ | fuel) rfl rfl hr hfuel
    · cases hfuel
    · rw [repeatStep_of_some (readStep?_next hr hread hnext)]
      obtain ⟨hended, hinbound⟩ := @ih
        { c with stream := left, inbound := c.inbound ++ (given [result]).map .frame } fuel
        rfl rfl hr (Nat.lt_of_succ_lt_succ hfuel)
      refine ⟨hended, ?_⟩
      rw [hinbound, given_cons result results, List.map_append, List.append_assoc c.inbound]

/-! ## Every stream -/

/-- **The read loop ends.** On a stream that ends, whatever its bytes are, however they arrived and
whether or not a frame has to give its length: a reading takes its frame off the bytes, and at least
one of them with an error that is not fatal. After no more readings than there are bytes comes the
end or an error that is fatal, and that ends the loop; the frames have no more bytes than the
stream, no body is too large, and behind the last frame the owner is left `closed` once. -/
theorem reading_ends (policy : MissingLength) {s : Stream} {bytes : List UInt8}
    (hs : s.Holds bytes) :
    (readFrame policy s).Consumes bytes ∧
    ∃ results last,
      successive policy (results.length + 1) s = results ++ [last] ∧
      results.length ≤ bytes.length ∧
      (∀ r ∈ results, isLast r = false) ∧ isLast last = true ∧
      ((given results).map Frame.bytes).flatten.length ≤ bytes.length ∧
      (∀ f ∈ given results, f.body.length ≤ maxBody) ∧
      ∀ c : Connection, c.policy = policy → c.stream = s → c.isReading = true →
        c.readAll.isReading = false ∧
        c.readAll.inbound = c.inbound ++ (given results).map .frame ++ [.closed] := by
  obtain ⟨results, last, hrun, hwithin⟩ := exists_terminates policy hs
  obtain ⟨hgoes, hlast⟩ := hrun.isLast_eq
  refine ⟨consumes_readFrame policy hs, results, last, hrun.successive_eq, hwithin.calls, hgoes,
    hlast, hwithin.pieces.length_le, hwithin.bodies, fun c hpolicy hstream hr => ?_⟩
  refine repeatStep_of_terminates hrun hpolicy hstream hr ?_
  rw [hstream, hs.size_eq]
  exact Nat.lt_succ_of_le hwithin.calls

/-- A block without a length, a body that is cut by the chunks and a frame that is cut by the end:
the loop ends, with all the frames it read before `closed`. -/
theorem reading_ends_cut_short :
    ∃ fs : List Frame,
      { opened .readAvailable with stream := .ofChunks [.bytes (Utf8.ofString "no length\n"),
          .bytes (Utf8.ofString "\r\nGET /"),
          .bytes (Utf8.ofString " x\nContent-Length: 9\n\n[]")] }.readAll.inbound =
        fs.map .frame ++ [.closed] ∧
      (fs.map Frame.bytes).flatten.length ≤ 41 := by
  obtain ⟨-, results, -, -, -, -, -, hsum, -, hloop⟩ := reading_ends .readAvailable
    (Stream.holds_ofChunks [Utf8.ofString "no length\n", Utf8.ofString "\r\nGET /",
      Utf8.ofString " x\nContent-Length: 9\n\n[]"])
  exact ⟨given results, (hloop _ rfl rfl rfl).2, Nat.le_trans hsum (by decide)⟩

/-- The chunk ends the body of the block without a length. -/
example :
    { opened .readAvailable with stream := .ofChunks [.bytes (Utf8.ofString "no length\n"),
        .bytes (Utf8.ofString "\r\nGET /"),
        .bytes (Utf8.ofString " x\nContent-Length: 9\n\n[]")] }.readAll.inbound =
      [.frame ⟨[], Utf8.ofString "no length\n\r\n", Utf8.ofString "GET /"⟩, .closed] := by
  decide +kernel

end Connection

end LanguageClient
