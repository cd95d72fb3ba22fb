import LanguageClient.Proofs.Frame.Block

/-!
# Successive readings

`successive` is what a caller sees who reads frame after frame. Bytes that are
used up by one reading, with whatever follows them, give its result (`Gives`);
bytes that are used up by several yield theirs (`Yields`).

* `yields_flatten`: pieces in a row yield their results in a row.
* `successive_of_yields`: where the stream ends behind such bytes, every
  further reading finds the end.
-/
namespace LanguageClient

/-- What a reading gives its caller. -/
abbrev FrameResult := Except FrameError (Option Frame)

/-- The result of a reading and the stream behind it, unless it has to wait. -/
def FrameRead.result? : FrameRead → Option (FrameResult × Stream)
  | .frame f rest => some (.ok (some f), rest)
  | .finished rest => some (.ok none, rest)
  | .failed e rest => some (.error e, rest)
  | .starved => none

namespace FrameReader

/-- What `calls` readings give, one behind the other. One that has to wait ends them. -/
def successive (policy : MissingLength) : Nat → Stream → List FrameResult
  | 0, _ => []
  | calls + 1, s =>
    match (readFrame policy s).result? with
    | some (result, rest) => result :: successive policy calls rest
    | none => []

/-- Some bytes give a result, whatever follows them, and are used up by it. -/
def Gives (policy : MissingLength) (bytes : List UInt8) (result : FrameResult) : Prop :=
  ∀ (s : Stream) (more : List UInt8), s.Holds (bytes ++ more) →
    ∃ rest, (readFrame policy s).result? = some (result, rest) ∧ rest.Holds more

variable {policy : MissingLength} {s rest : Stream} {result : FrameResult}

theorem successive_succ (h : (readFrame policy s).result? = some (result, rest)) (calls : Nat) :
    successive policy (calls + 1) s = result :: successive policy calls rest := by
  simp only [successive, h]

theorem successive_failed {e : FrameError} (h : readFrame policy s = .failed e rest)
    (calls : Nat) :
    successive policy (calls + 1) s = .error e :: successive policy calls rest :=
  successive_succ (by rw [h]; rfl) calls

/-- Some bytes yield results, whatever follows them, and are used up by them. -/
def Yields (policy : MissingLength) (bytes : List UInt8) (results : List FrameResult) : Prop :=
  ∀ (s : Stream) (more : List UInt8), s.Holds (bytes ++ more) →
    ∃ rest, rest.Holds more ∧ ∀ calls,
      successive policy (results.length + calls) s = results ++ successive policy calls rest

theorem yields_nil (policy : MissingLength) : Yields policy [] [] :=
  fun s _ hs => ⟨s, hs, fun calls => by simp⟩

theorem Yields.append {bytes bytes' : List UInt8} {results results' : List FrameResult}
    (h : Yields policy bytes results) (h' : Yields policy bytes' results') :
    Yields policy (bytes ++ bytes') (results ++ results') := by
  intro s more hs
  rw [List.append_assoc] at hs
  obtain ⟨behind, hbehind, hrun⟩ := h s _ hs
  obtain ⟨rest, hrest, hrun'⟩ := h' behind more hbehind
  refine ⟨rest, hrest, fun calls => ?_⟩
  rw [List.length_append, Nat.add_assoc, hrun, hrun', List.append_assoc]

theorem Gives.yields {bytes : List UInt8} (h : Gives policy bytes result) :
    Yields policy bytes [result] := by
  intro s more hs
  obtain ⟨rest, he, hrest⟩ := h s more hs
  exact ⟨rest, hrest, fun calls => by
    rw [List.length_singleton, Nat.add_comm, successive_succ he, List.singleton_append]⟩

/-- Pieces in a row yield their results in a row. -/
theorem yields_flatten {α : Type} (bytes : α → List UInt8) (results : α → List FrameResult)
    {items : List α} (h : ∀ i ∈ items, Yields policy (bytes i) (results i)) :
    Yields policy (items.map bytes).flatten (items.map results).flatten := by
  induction items with
  | nil => exact yields_nil policy
  | cons i items ih =>
    rw [List.map_cons, List.flatten_cons, List.map_cons, List.flatten_cons]
    exact (h i (by simp)).append (ih fun j hj => h j (List.mem_cons_of_mem _ hj))

theorem readFrame_end (policy : MissingLength) (hs : s.Holds []) :
    ∃ rest, readFrame policy s = .finished rest ∧ rest.Holds [] := by
  obtain ⟨rest, he, hrest⟩ := Stream.readLine_holds hs (maxHeaderLine + 1)
  refine ⟨rest, ?_, by simpa using hrest⟩
  have hline : s.readLine (maxHeaderLine + 1) = .ok [] rest := he
  have hblock : readHeaders ⟨[], []⟩ maxHeaderLines s = .finished rest := by
    show readHeaders ⟨[], []⟩ (99 + 1) s = _
    simp [readHeaders, hline]
  simp only [readFrame, hblock]

/-- At the end every reading finds the end. -/
theorem successive_end (policy : MissingLength) (hs : s.Holds []) (calls : Nat) :
    successive policy calls s = List.replicate calls (.ok none) := by
  induction calls generalizing s with
  | zero => rfl
  | succ calls ih =>
    obtain ⟨rest, he, hrest⟩ := readFrame_end policy hs
    have hresult : (readFrame policy s).result? = some (.ok none, rest) := by rw [he]; rfl
    rw [successive_succ hresult, ih hrest, List.replicate_succ]

theorem successive_of_yields {bytes : List UInt8} {results : List FrameResult}
    (h : Yields policy bytes results) (hs : s.Holds bytes) (calls : Nat) :
    successive policy (results.length + calls) s = results ++ List.replicate calls (.ok none) := by
  rw [← List.append_nil bytes] at hs
  obtain ⟨rest, hrest, hrun⟩ := h s [] hs
  rw [hrun, successive_end policy hrest]

end FrameReader

/-! ## Frames -/

open FrameReader

theorem gives_wellFormed {f : RawFrame} (policy : MissingLength) (hf : f.WellFormed) :
    Gives policy f.bytes (.ok (some f.frame)) := by
  intro s more hs
  obtain ⟨rest, he, hrest⟩ := readFrame_wellFormed policy hf hs
  exact ⟨rest, by rw [he]; rfl, hrest⟩

theorem gives_oversized {f : RawFrame} (policy : MissingLength) (hf : f.GivesLength)
    (hlong : maxBody < f.body.length) :
    Gives policy f.bytes (.error (.oversized f.body.length)) := by
  intro s more hs
  obtain ⟨rest, he, hrest⟩ := readFrame_oversized policy hf hlong hs
  exact ⟨rest, by rw [he]; rfl, hrest⟩

end LanguageClient
