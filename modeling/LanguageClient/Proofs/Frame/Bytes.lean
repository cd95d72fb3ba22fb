import LanguageClient.Frame.Stream

/-!
# Streams by their bytes

A stream that has ended and has no fault in it is as good as the bytes that
are left in it (`Holds`): in how many chunks they came, and how much of them
is in the buffer already, makes no difference to what a read of a line, of a
body or of a stretch to be skipped gives and leaves.

* `readLine_holds`, `readExactly_holds`, `skip_holds`: what each read gives,
  by the bytes alone.
-/
namespace LanguageClient.Stream

/-- The stream has ended, and these bytes are left in it. -/
def Holds (s : Stream) (bytes : List UInt8) : Prop :=
  s.ended = true ∧ ∃ pieces : List (List UInt8),
    s.arrived = pieces.map .bytes ∧ s.buffer ++ pieces.flatten = bytes

theorem holds_ofChunks (pieces : List (List UInt8)) :
    (ofChunks (pieces.map .bytes)).Holds pieces.flatten :=
  ⟨rfl, pieces, rfl, rfl⟩

/-! ## Single reads -/

/-- A read past the buffer gives a beginning of what is behind it, and nothing only at the end. -/
theorem pull_pieces (limit : Nat) (hlimit : 0 < limit) (buffer : List UInt8)
    (pieces : List (List UInt8)) :
    ∃ (got : List UInt8) (left : List (List UInt8)),
      pull limit buffer true (pieces.map .bytes) = .ok got ⟨buffer, left.map .bytes, true⟩ ∧
      got ++ left.flatten = pieces.flatten ∧ got.length ≤ limit ∧
      (got = [] → pieces.flatten = []) := by
  induction pieces with
  | nil => exact ⟨[], [], rfl, rfl, Nat.zero_le _, fun _ => rfl⟩
  | cons piece pieces ih =>
    cases piece with
    | nil => exact ih
    | cons b bs =>
      by_cases hleft : ((b :: bs).drop limit).isEmpty
      · refine ⟨b :: bs, pieces, ?_, rfl, ?_, fun h => by cases h⟩
        · simp only [List.map_cons, pull, if_pos hleft]
        · simpa using hleft
      · refine ⟨(b :: bs).take limit, (b :: bs).drop limit :: pieces, ?_, ?_, ?_, ?_⟩
        · simp only [List.map_cons, pull, if_neg hleft, takeBlocks_eq_take]
        · rw [List.flatten_cons, ← List.append_assoc, List.take_append_drop, List.flatten_cons]
        · exact List.length_take_le ..
        · intro h
          rw [List.take_eq_nil_iff] at h
          rcases h with h | h
          · omega
          · cases h

variable {s : Stream} {bytes : List UInt8}

/-- One read through the buffer gives a beginning of the bytes, and nothing only at the end. -/
theorem readSome_holds (h : s.Holds bytes) (limit : Nat) (hlimit : 0 < limit) :
    ∃ got left rest, readSome limit s = .ok got rest ∧ rest.Holds left ∧
      got ++ left = bytes ∧ got.length ≤ limit ∧ (got = [] → bytes = []) := by
  obtain ⟨buffer, arrived, ended⟩ := s
  obtain ⟨rfl, pieces, rfl, rfl⟩ := h
  cases buffer with
  | cons b bs =>
    refine ⟨(b :: bs).take limit, (b :: bs).drop limit ++ pieces.flatten, _, rfl,
      ⟨rfl, pieces, rfl, rfl⟩, ?_, List.length_take_le .., fun h => ?_⟩
    · rw [← List.append_assoc, List.take_append_drop]
    · rw [List.take_eq_nil_iff] at h
      rcases h with h | h
      · omega
      · cases h
  | nil =>
    by_cases hlarge : bufferSize ≤ limit
    · obtain ⟨got, left, he, hcut, hlen, hend⟩ := pull_pieces limit hlimit [] pieces
      refine ⟨got, left.flatten, ⟨[], left.map .bytes, true⟩, ?_, ⟨rfl, left, rfl, rfl⟩, hcut, hlen,
        hend⟩
      simp only [readSome, if_pos hlarge, he]
    · obtain ⟨got, left, he, hcut, -, hend⟩ :=
        pull_pieces bufferSize (by decide) [] pieces
      refine ⟨got.take limit, got.drop limit ++ left.flatten,
        ⟨got.drop limit, left.map .bytes, true⟩, ?_, ⟨rfl, left, rfl, rfl⟩, ?_,
        List.length_take_le .., fun h => ?_⟩
      · simp only [readSome, if_neg hlarge, he]
      · rw [← List.append_assoc, List.take_append_drop]
        exact hcut
      · rw [List.take_eq_nil_iff] at h
        exact hend (h.resolve_left (by omega))

theorem readByte_nil (h : s.Holds []) : ∃ rest, readByte s = .ok none rest ∧ rest.Holds [] := by
  obtain ⟨buffer, arrived, ended⟩ := s
  obtain ⟨rfl, pieces, rfl, hcut⟩ := h
  obtain ⟨rfl, hp⟩ := List.append_eq_nil_iff.1 hcut
  obtain ⟨got, left, he, hcut', -, -⟩ := pull_pieces bufferSize (by decide) [] pieces
  rw [hp] at hcut'
  obtain ⟨rfl, hleft⟩ := List.append_eq_nil_iff.1 hcut'
  exact ⟨⟨[], left.map .bytes, true⟩, by simp only [readByte, he], rfl, left, rfl, hleft⟩

theorem readByte_cons {b : UInt8} (h : s.Holds (b :: bytes)) :
    ∃ rest, readByte s = .ok (some b) rest ∧ rest.Holds bytes := by
  obtain ⟨buffer, arrived, ended⟩ := s
  obtain ⟨rfl, pieces, rfl, hcut⟩ := h
  cases buffer with
  | cons b' bs =>
    obtain ⟨rfl, rfl⟩ := List.cons.inj hcut
    exact ⟨_, rfl, rfl, pieces, rfl, rfl⟩
  | nil =>
    obtain ⟨got, left, he, hcut', -, hend⟩ :=
      pull_pieces bufferSize (by decide) [] pieces
    rw [List.nil_append] at hcut
    rw [hcut] at hcut' hend
    cases got with
    | nil => cases hend rfl
    | cons b' bs =>
      obtain ⟨rfl, rfl⟩ := List.cons.inj hcut'
      exact ⟨⟨bs, left.map .bytes, true⟩, by simp only [readByte, he], rfl, left, rfl, rfl⟩

/-! ## Lines -/

/-- The bytes up to and including the first line feed, but at most `limit`. -/
def firstLine : Nat → List UInt8 → List UInt8
  | 0, _ => []
  | _ + 1, [] => []
  | limit + 1, b :: bytes => if b = 0x0A then [b] else b :: firstLine limit bytes

theorem readLineFrom_holds (limit : Nat) :
    ∀ {s : Stream} {bytes : List UInt8} (line : List UInt8), s.Holds bytes →
      ∃ rest, readLineFrom line limit s = .ok (line.reverse ++ firstLine limit bytes) rest ∧
        rest.Holds (bytes.drop (firstLine limit bytes).length) := by
  induction limit with
  | zero =>
    intro s bytes line h
    exact ⟨s, by simp [readLineFrom, firstLine], by simpa [firstLine] using h⟩
  | succ limit ih =>
    intro s bytes line h
    cases bytes with
    | nil =>
      obtain ⟨rest, he, hrest⟩ := readByte_nil h
      exact ⟨rest, by simp [readLineFrom, he, firstLine], by simpa [firstLine] using hrest⟩
    | cons b bytes =>
      obtain ⟨rest, he, hrest⟩ := readByte_cons h
      by_cases hb : b = 0x0A
      · exact ⟨rest, by simp [readLineFrom, he, hb, firstLine],
          by simpa [firstLine, hb] using hrest⟩
      · obtain ⟨rest', he', hrest'⟩ := ih (b :: line) hrest
        exact ⟨rest', by simp [readLineFrom, he, hb, firstLine, he'],
          by simpa [firstLine, hb] using hrest'⟩

theorem readLine_holds (h : s.Holds bytes) (limit : Nat) :
    ∃ rest, s.readLine limit = .ok (firstLine limit bytes) rest ∧
      rest.Holds (bytes.drop (firstLine limit bytes).length) :=
  readLineFrom_holds limit [] h

/-! ## Bodies -/

/-- Behind what was got of some bytes, what is wanted of them goes on with the rest. -/
theorem take_drop_got {got left : List UInt8} (wanted : Nat) (hcut : got ++ left = bytes)
    (hlen : got.length ≤ wanted) :
    bytes.take wanted = got ++ left.take (wanted - got.length) ∧
      bytes.drop wanted = left.drop (wanted - got.length) := by
  rw [← hcut, List.take_append, List.take_of_length_le hlen, List.drop_append,
    List.drop_of_length_le hlen, List.nil_append]
  exact ⟨rfl, rfl⟩

theorem readAllFrom_holds (most fuel : Nat) :
    ∀ {s : Stream} {bytes : List UInt8} (pieces : List (List UInt8)) (wanted : Nat),
      s.Holds bytes → wanted ≤ fuel → (0 < wanted → 0 < most) →
      ∃ rest, readAllFrom most pieces fuel wanted s =
          .ok (assemble pieces ++ bytes.take wanted) rest ∧
        rest.Holds (bytes.drop wanted) := by
  induction fuel with
  | zero =>
    intro s bytes pieces wanted h hfuel _
    obtain rfl : wanted = 0 := by omega
    exact ⟨s, by simp [readAllFrom], by simpa using h⟩
  | succ fuel ih =>
    intro s bytes pieces wanted h hfuel hmost
    by_cases hw : wanted = 0
    · subst hw
      exact ⟨s, by simp [readAllFrom], by simpa using h⟩
    · have hpos := hmost (by omega)
      obtain ⟨got, left, rest, he, hrest, hcut, hlen, hend⟩ :=
        readSome_holds h (min most wanted) (by omega)
      cases got with
      | nil =>
        have hbytes := hend rfl
        rw [List.nil_append, hbytes] at hcut
        rw [hcut] at hrest
        exact ⟨rest, by simp [readAllFrom, hw, he, hbytes], by simpa [hbytes] using hrest⟩
      | cons b bs =>
        rw [List.length_cons] at hlen
        obtain ⟨rest', he', hrest'⟩ := ih ((b :: bs) :: pieces)
          (wanted - (b :: bs).length) hrest (by simp; omega) (fun _ => hpos)
        obtain ⟨htake, hdrop⟩ := take_drop_got wanted hcut (by simp; omega)
        refine ⟨rest', ?_, hdrop ▸ hrest'⟩
        simp only [readAllFrom, if_neg hw, he, List.isEmpty_cons, Bool.false_eq_true, if_false,
          he', assemble_eq_flatten, List.reverse_cons, List.flatten_append]
        rw [htake]
        simp

theorem readExactly_holds (h : s.Holds bytes) (wanted : Nat) :
    ∃ rest, s.readExactly wanted = .ok (bytes.take wanted) rest ∧
      rest.Holds (bytes.drop wanted) :=
  readAllFrom_holds wanted wanted [] wanted h (Nat.le_refl _) id

theorem skipFrom_holds (fuel : Nat) :
    ∀ {s : Stream} {bytes : List UInt8} (skipped wanted : Nat),
      s.Holds bytes → wanted ≤ fuel →
      ∃ rest, skipFrom skipped fuel wanted s = .ok (skipped + min wanted bytes.length) rest ∧
        rest.Holds (bytes.drop wanted) := by
  induction fuel with
  | zero =>
    intro s bytes skipped wanted h hfuel
    obtain rfl : wanted = 0 := by omega
    exact ⟨s, by simp [skipFrom], by simpa using h⟩
  | succ fuel ih =>
    intro s bytes skipped wanted h hfuel
    by_cases hw : wanted = 0
    · subst hw
      exact ⟨s, by simp [skipFrom], by simpa using h⟩
    · obtain ⟨got, left, rest, he, hrest, hcut, hlen, hend⟩ :=
        readSome_holds h (min bufferSize wanted) (by simp [bufferSize]; omega)
      cases got with
      | nil =>
        have hbytes := hend rfl
        rw [List.nil_append, hbytes] at hcut
        rw [hcut] at hrest
        exact ⟨rest, by simp [skipFrom, hw, he, hbytes], by simpa [hbytes] using hrest⟩
      | cons b bs =>
        obtain ⟨rest', he', hrest'⟩ := ih (skipped + (b :: bs).length)
          (wanted - (b :: bs).length) hrest (by simp; omega)
        obtain ⟨-, hdrop⟩ := take_drop_got wanted hcut (by omega)
        refine ⟨rest', ?_, hdrop ▸ hrest'⟩
        simp only [skipFrom, if_neg hw, he, List.isEmpty_cons, Bool.false_eq_true, if_false, he']
        congr 1
        rw [← hcut, List.length_append]
        omega

theorem skip_holds (h : s.Holds bytes) (wanted : Nat) :
    ∃ rest, s.skip wanted = .ok (min wanted bytes.length) rest ∧
      rest.Holds (bytes.drop wanted) := by
  rw [← Nat.zero_add (min wanted bytes.length)]
  exact skipFrom_holds wanted 0 wanted h (Nat.le_refl _)

end LanguageClient.Stream
