import LanguageClient.Proofs.Frame.Successive

/-!
# Readings come to an end

A reading cuts a piece off the bytes that a stream holds (`FrameRead.Consumes`):
a frame is that piece, byte by byte, and an error that is not fatal has one that
is not empty. So whoever reads frame after frame has a result that says that
nothing more can be read after as many calls as there are bytes, at the latest
(`Terminates`).

* `consumes_readFrame`: what one reading does.
* `exists_terminates`: the readings of a stream end, and the frames are pieces
  of it in their order.
-/
namespace LanguageClient

/-! ## What one reading does -/

def Frame.bytes (f : Frame) : List UInt8 :=
  f.headerBytes ++ f.body

/-- A reading of a stream that holds some bytes ends, and cuts off a piece of them: a frame is that
piece, and has a header block and a body that is not too large. The end is only where no bytes are.
Behind an error that is not fatal there are fewer of them. -/
def FrameRead.Consumes (bytes : List UInt8) : FrameRead → Prop
  | .frame f left => ∃ rest, left.Holds rest ∧ f.bytes ++ rest = bytes ∧
      f.headerBytes ≠ [] ∧ f.body.length ≤ maxBody
  | .finished left => left.Holds [] ∧ bytes = []
  | .failed e left => ∃ piece rest, left.Holds rest ∧ piece ++ rest = bytes ∧
      (e.isFatal = false → piece ≠ [])
  | .starved => False

namespace FrameReader

variable {s : Stream} {bytes : List UInt8}

/-- The same for a header block; `bytes` are those of the block and those behind it. -/
def HeadersRead.Consumes (bytes : List UInt8) : HeadersRead → Prop
  | .headers h left => ∃ rest, left.Holds rest ∧ h.bytes ++ rest = bytes ∧ h.bytes ≠ []
  | .finished left => left.Holds [] ∧ bytes = []
  | .failed e left => ∃ piece rest, left.Holds rest ∧ piece ++ rest = bytes ∧
      (e.isFatal = false → piece ≠ [])
  | .starved => False

theorem firstLine_append_drop (limit : Nat) (bytes : List UInt8) :
    Stream.firstLine limit bytes ++ bytes.drop (Stream.firstLine limit bytes).length = bytes := by
  fun_induction Stream.firstLine limit bytes <;> simp_all

theorem eq_nil_of_firstLine {limit : Nat} (h : Stream.firstLine (limit + 1) bytes = []) :
    bytes = [] := by
  cases bytes with
  | nil => rfl
  | cons b bytes =>
    rw [Stream.firstLine] at h
    split at h <;> cases h

/-- A line is cut off the bytes; it is empty only at the end of them. -/
theorem readLine_cut (hs : s.Holds bytes) :
    ∃ line rest left, s.readLine (maxHeaderLine + 1) = .ok line left ∧ left.Holds rest ∧
      line ++ rest = bytes ∧ (line = [] → bytes = []) := by
  obtain ⟨left, he, hleft⟩ := Stream.readLine_holds hs (maxHeaderLine + 1)
  exact ⟨_, _, left, he, hleft, firstLine_append_drop .., eq_nil_of_firstLine⟩

theorem consumes_readHeaders (lines : Nat) :
    ∀ {s : Stream} {bytes : List UInt8} (h : Headers), s.Holds bytes →
      (lines = 0 → h.bytes ≠ []) → (readHeaders h lines s).Consumes (h.bytes ++ bytes) := by
  induction lines with
  | zero =>
    intro s bytes h hs hbegun
    obtain ⟨line, rest, left, he, hleft, rfl, -⟩ := readLine_cut hs
    have hpiece : h.bytes ++ line ≠ [] := List.append_ne_nil_of_left_ne_nil (hbegun rfl) line
    unfold readHeaders
    simp only [he]
    split <;> exact ⟨h.bytes ++ line, rest, hleft, List.append_assoc .., fun _ => hpiece⟩
  | succ lines ih =>
    intro s bytes h hs _
    obtain ⟨line, rest, left, he, hleft, rfl, hend⟩ := readLine_cut hs
    unfold readHeaders
    simp only [he]
    by_cases hline : line = []
    · obtain ⟨rfl, rfl⟩ := List.append_eq_nil_iff.1 (hend hline)
      have hshort : ¬ maxHeaderLine < ([] : List UInt8).length := Nat.not_lt_zero _
      rw [if_neg hshort, if_pos List.isEmpty_nil]
      split
      · next hnone => exact ⟨hleft, by simpa using hnone⟩
      · exact ⟨h.bytes, [], hleft, rfl, fun hfatal => by cases hfatal⟩
    · have hpiece : h.bytes ++ line ≠ [] := List.append_ne_nil_of_right_ne_nil _ hline
      rw [if_neg (show ¬ line.isEmpty = true by simpa using hline), ← List.append_assoc]
      split
      · exact ⟨h.bytes ++ line, rest, hleft, rfl, fun _ => hpiece⟩
      · split
        · exact ⟨rest, hleft, rfl, hpiece⟩
        · exact ih (h.add line) hleft fun _ => hpiece

variable {h : Headers}

theorem consumes_readBody (hs : s.Holds bytes) (hbegun : h.bytes ≠ []) {length : Nat}
    (hfits : length ≤ maxBody) : (readBody h length s).Consumes (h.bytes ++ bytes) := by
  obtain ⟨left, he, hleft⟩ := Stream.readExactly_holds hs length
  unfold readBody
  simp only [he]
  split
  · exact ⟨h.bytes ++ bytes.take length, bytes.drop length, hleft,
      by rw [List.append_assoc, List.take_append_drop], fun hfatal => by cases hfatal⟩
  · exact ⟨bytes.drop length, hleft,
      by rw [Frame.bytes, List.append_assoc, List.take_append_drop], hbegun,
      Nat.le_trans (List.length_take_le ..) hfits⟩

theorem consumes_skipBody (hs : s.Holds bytes) (hbegun : h.bytes ≠ []) (length : Nat) :
    (skipBody length s).Consumes (h.bytes ++ bytes) := by
  obtain ⟨left, he, hleft⟩ := Stream.skip_holds hs length
  unfold skipBody
  simp only [he]
  split <;>
    exact ⟨h.bytes ++ bytes.take length, bytes.drop length, hleft,
      by rw [List.append_assoc, List.take_append_drop],
      fun _ => List.append_ne_nil_of_left_ne_nil hbegun _⟩

/-- Whatever one read gives is a body, also nothing at all: the header block was cut off before. -/
theorem consumes_readAvailable (hs : s.Holds bytes) (hbegun : h.bytes ≠ []) :
    (readAvailable h s).Consumes (h.bytes ++ bytes) := by
  obtain ⟨body, rest, left, he, hleft, rfl, hlen, -⟩ :=
    Stream.readSome_holds hs fallbackBody (by decide)
  unfold readAvailable
  simp only [he]
  exact ⟨rest, hleft, List.append_assoc .., hbegun, Nat.le_trans hlen (by decide)⟩

theorem consumes_readFrame (policy : MissingLength) (hs : s.Holds bytes) :
    (readFrame policy s).Consumes bytes := by
  have hheaders : (readHeaders ⟨[], []⟩ maxHeaderLines s).Consumes bytes :=
    consumes_readHeaders maxHeaderLines ⟨[], []⟩ hs fun h => by cases h
  unfold readFrame
  generalize readHeaders ⟨[], []⟩ maxHeaderLines s = o at hheaders ⊢
  rcases o with ⟨h, left⟩ | left | ⟨e, left⟩ | _
  · obtain ⟨rest, hleft, rfl, hbegun⟩ := hheaders
    simp only
    split
    · exact ⟨h.bytes, rest, hleft, rfl, fun _ => hbegun⟩
    · split
      · exact consumes_skipBody hleft hbegun _
      · next hfits => exact consumes_readBody hleft hbegun (Nat.le_of_not_lt hfits)
    · split
      · exact ⟨h.bytes, rest, hleft, rfl, fun _ => hbegun⟩
      · exact consumes_readAvailable hleft hbegun
  · exact hheaders
  · exact hheaders
  · exact hheaders

/-! ## Reading after reading -/

/-- Whether a result is the last one that a caller asks for: the end of the stream, or an error
behind which nothing can be read. -/
def isLast : FrameResult → Bool
  | .ok (some _) => false
  | .ok none => true
  | .error e => e.isFatal

/-- The frames among some results. -/
def given (results : List FrameResult) : List Frame :=
  results.filterMap fun
    | .ok f => f
    | .error _ => none

theorem given_cons (result : FrameResult) (results : List FrameResult) :
    given (result :: results) = given [result] ++ given results := by
  rw [given, ← List.singleton_append, List.filterMap_append]
  rfl

/-- The results of a caller who reads frame after frame, up to the last one. -/
inductive Terminates (policy : MissingLength) : Stream → List FrameResult → FrameResult → Prop
  | last {s left : Stream} {last : FrameResult}
      (hread : (readFrame policy s).result? = some (last, left)) (hlast : isLast last = true) :
      Terminates policy s [] last
  | next {s left : Stream} {result last : FrameResult} {results : List FrameResult}
      (hread : (readFrame policy s).result? = some (result, left)) (hnext : isLast result = false)
      (hleft : Terminates policy left results last) : Terminates policy s (result :: results) last

section Terminates

variable {policy : MissingLength} {results : List FrameResult} {last : FrameResult}

theorem Terminates.successive_eq (h : Terminates policy s results last) :
    successive policy (results.length + 1) s = results ++ [last] := by
  induction h with
  | last hread => rw [List.length_nil, successive_succ hread, successive, List.nil_append]
  | next hread _ _ ih => rw [List.length_cons, successive_succ hread, ih, List.cons_append]

theorem Terminates.isLast_eq (h : Terminates policy s results last) :
    (∀ r ∈ results, isLast r = false) ∧ isLast last = true := by
  induction h with
  | last _ hlast => exact ⟨by simp, hlast⟩
  | next _ hnext _ ih => exact ⟨List.forall_mem_cons.2 ⟨hnext, ih.1⟩, ih.2⟩

end Terminates

theorem length_lt_of_append_eq {piece rest : List UInt8} (hcut : piece ++ rest = bytes)
    (hne : piece ≠ []) : rest.length < bytes.length := by
  have hpos := List.length_pos_iff.2 hne
  rw [← hcut, List.length_append]
  omega

/-- Results that came of some bytes: there are not more of them, the frames are pieces of the bytes
in their order, and no body is too large. -/
structure Within (bytes : List UInt8) (results : List FrameResult) : Prop where
  calls : results.length ≤ bytes.length
  pieces : ((given results).map Frame.bytes).flatten.Sublist bytes
  bodies : ∀ f ∈ given results, f.body.length ≤ maxBody

section Within

variable {results : List FrameResult} {rest : List UInt8}

theorem within_nil (bytes : List UInt8) : Within bytes [] :=
  ⟨Nat.zero_le _, List.nil_sublist _, by simp [given]⟩

theorem Within.frame {f : Frame} (h : Within rest results) (hne : f.bytes ≠ [])
    (hbody : f.body.length ≤ maxBody) : Within (f.bytes ++ rest) (.ok (some f) :: results) where
  calls := Nat.lt_of_le_of_lt h.calls (length_lt_of_append_eq rfl hne)
  pieces := (List.Sublist.refl _).append h.pieces
  bodies := List.forall_mem_cons.2 ⟨hbody, h.bodies⟩

theorem Within.error {piece : List UInt8} (e : FrameError) (h : Within rest results)
    (hne : piece ≠ []) : Within (piece ++ rest) (.error e :: results) where
  calls := Nat.lt_of_le_of_lt h.calls (length_lt_of_append_eq rfl hne)
  pieces := h.pieces.trans (List.sublist_append_right ..)
  bodies := h.bodies

end Within

/-- Every reading of a frame that is not the last one cuts something off, so the last one comes. -/
theorem exists_terminates (policy : MissingLength) (hs : s.Holds bytes) :
    ∃ results last, Terminates policy s results last ∧ Within bytes results := by
  induction hlength : bytes.length using Nat.strongRecOn generalizing s bytes with
  | ind n ih =>
    subst hlength
    have hconsumes := consumes_readFrame policy hs
    cases hread : readFrame policy s with
    | frame f left =>
      rw [hread] at hconsumes
      obtain ⟨rest, hleft, hcut, hbegun, hbody⟩ := hconsumes
      have hne : f.bytes ≠ [] := List.append_ne_nil_of_left_ne_nil hbegun _
      obtain ⟨results, last, hrun, hwithin⟩ := ih _ (length_lt_of_append_eq hcut hne) hleft rfl
      exact ⟨.ok (some f) :: results, last, .next (by rw [hread]; rfl) rfl hrun,
        hcut ▸ hwithin.frame hne hbody⟩
    | finished left => exact ⟨[], .ok none, .last (by rw [hread]; rfl) rfl, within_nil _⟩
    | failed e left =>
      rw [hread] at hconsumes
      obtain ⟨piece, rest, hleft, hcut, hgoes⟩ := hconsumes
      cases hfatal : e.isFatal with
      | true => exact ⟨[], .error e, .last (by rw [hread]; rfl) hfatal, within_nil _⟩
      | false =>
        have hne := hgoes hfatal
        obtain ⟨results, last, hrun, hwithin⟩ := ih _ (length_lt_of_append_eq hcut hne) hleft rfl
        exact ⟨.error e :: results, last, .next (by rw [hread]; rfl) hfatal hrun,
          hcut ▸ hwithin.error e hne⟩
    | starved =>
      rw [hread] at hconsumes
      exact hconsumes.elim

end FrameReader

end LanguageClient
