import LanguageClient.Edit
import LanguageClient.Proofs.Text.Boundary
import LanguageClient.Proofs.Text.Lines

/-!
# Edits of whole lines

Positions at the starts of lines cut a text between its lines, so that an
event with such a range replaces lines by its text. An event that starts
behind some lines leaves them as they are, whatever else it does.

* `splice?_lines`, `splice?_tail`: what replacing lines gives.
* `applyAll?_keeps`: lines before all events stay.
-/
namespace LanguageClient

open Line (Ends Open Lined isBreak)

variable {P : List (List Char)} {l s rest : List Char} {p : Position} {r : Range}

/-! ## Positions -/

namespace Position

/-- A position in the line behind some others. -/
theorem split?_line (hP : ∀ l ∈ P, Ends l) (hl : p.line.toNat = P.length) (rest : List Char) :
    p.split? (P.flatten ++ rest) =
      (Utf16.split? (Line.content rest) p.character.toNat).map fun (x, y) =>
        (P.flatten ++ x, y ++ rest.drop (Line.content rest).length) := by
  have hcut := Line.splitAt?_flatten hP 0 rest
  rw [Nat.add_zero] at hcut
  simp only [split?, hl, hcut, Line.splitAt?, Option.map_some, Option.bind_eq_bind,
    Option.bind_some, List.append_nil]
  cases Utf16.split? (Line.content rest) p.character.toNat <;> rfl

/-- The start of line `i`. -/
structure Starts (p : Position) (i : Nat) : Prop where
  line : p.line.toNat = i
  character : p.character = 0

/-- The start of a line. -/
theorem Starts.split? {i : Nat} (h : p.Starts i) (hP : ∀ l ∈ P, Ends l) (hi : i ≤ P.length) :
    p.split? (P.flatten ++ rest) = some ((P.take i).flatten, (P.drop i).flatten ++ rest) := by
  have hcut : P.flatten ++ rest = (P.take i).flatten ++ ((P.drop i).flatten ++ rest) := by
    rw [← List.append_assoc, ← List.flatten_append, List.take_append_drop]
  have htake : ∀ l ∈ P.take i, Ends l := fun l hl => hP l (List.mem_of_mem_take hl)
  have hcontent : ∀ s : List Char, Line.content s ++ s.drop (Line.content s).length = s :=
    fun s => List.prefix_iff_eq_append.1 (List.takeWhile_prefix _)
  rw [hcut, split?_line htake (by rw [h.line, List.length_take_of_le hi]), h.character]
  simp [Utf16.split?_zero, hcontent]

/-- The end of a last line that nothing ends. -/
theorem split?_stop (hP : ∀ l ∈ P, Ends l) (ho : Open l) (hl : p.line.toNat = P.length)
    (hc : p.character.toNat = Utf16.length l) :
    p.split? (P.flatten ++ l) = some (P.flatten ++ l, []) := by
  rw [split?_line hP hl, Line.content_open ho.2, hc, Utf16.split?_length]
  simp

/-- A place in an ended line. -/
theorem split?_inside {x y : List Char} (hP : ∀ l ∈ P, Ends l) (hs : ∀ c ∈ s, isBreak c = false)
    (hl : p.line.toNat = P.length) (h : p.split? (P.flatten ++ s ++ '\n' :: rest) = some (x, y)) :
    ∃ t u, s = t ++ u ∧ x = P.flatten ++ t ∧ y = u ++ '\n' :: rest := by
  have hcontent : Line.content (s ++ '\n' :: rest) = s := Line.takeWhile_append_break hs
  rw [List.append_assoc, split?_line hP hl, hcontent, List.drop_left, Option.map_eq_some_iff] at h
  obtain ⟨⟨t, u⟩, htu, hxy⟩ := h
  obtain ⟨rfl, rfl⟩ := Prod.mk.inj hxy
  exact ⟨t, u, (Utf16.split?_eq_some.1 htu).1, rfl, rfl⟩

/-- A position behind some lines. -/
theorem split?_keeps {x y : List Char} (hP : ∀ l ∈ P, Ends l) (hl : P.length ≤ p.line.toNat)
    (h : p.split? (P.flatten ++ rest) = some (x, y)) : ∃ t, x = P.flatten ++ t := by
  obtain ⟨n, hn⟩ := Nat.le.dest hl
  simp only [split?, ← hn, Line.splitAt?_flatten hP, Option.bind_eq_bind,
    Option.bind_eq_some_iff, Option.map_eq_some_iff] at h
  obtain ⟨_, ⟨⟨u, v⟩, -, rfl⟩, ⟨t, w⟩, -, hxy⟩ := h
  obtain ⟨rfl, -⟩ := Prod.mk.inj (Option.some.inj hxy)
  exact ⟨u ++ t, by simp⟩

/-- There are no lines behind one that nothing ends. -/
theorem split?_behind (hP : ∀ l ∈ P, Ends l) (ho : Open l) (hl : P.length < p.line.toNat) :
    p.split? (P.flatten ++ l) = none := by
  obtain ⟨n, hn⟩ := Nat.le.dest hl
  have hcut := Line.splitAt?_flatten hP (n + 1) l
  rw [Line.splitAt?_open ho.2, ← Nat.add_assoc, Nat.add_right_comm] at hcut
  simp only [split?, ← hn, Nat.succ_eq_add_one, hcut]
  rfl

end Position

/-! ## Lines replaced -/

namespace ChangeEvent

theorem splice?_eq_some {d text : List Char} {d' : List Char} : splice? d r text = some d' ↔
    ∃ x x' y z, r.start.split? d = some (x, x') ∧ r.stop.split? d = some (y, z) ∧
      x.length ≤ y.length ∧ x ++ text ++ z = d' := by
  simp [splice?, Option.bind_eq_some_iff]

/-- Ended lines are replaced. -/
theorem splice?_lines {i j : Nat} (hP : ∀ l ∈ P, Ends l) (hi : r.start.Starts i)
    (hj : r.stop.Starts j) (hij : i ≤ j) (hle : j ≤ P.length) (text rest : List Char) :
    splice? (P.flatten ++ rest) r text =
      some ((P.take i).flatten ++ text ++ ((P.drop j).flatten ++ rest)) := by
  refine splice?_eq_some.2 ⟨_, _, _, _, hi.split? hP (by omega), hj.split? hP hle, ?_, rfl⟩
  obtain ⟨t, ht⟩ := List.take_prefix_take_left hij (l := P)
  rw [← ht, List.flatten_append, List.length_append]
  exact Nat.le_add_right ..

/-- The last lines are replaced, the last of which nothing ends. -/
theorem splice?_tail {i : Nat} (hP : ∀ l ∈ P, Ends l) (ho : Open l) (hi : r.start.Starts i)
    (hline : r.stop.line.toNat = P.length) (hc : r.stop.character.toNat = Utf16.length l)
    (hle : i ≤ P.length) (text : List Char) :
    splice? (P.flatten ++ l) r text = some ((P.take i).flatten ++ text) := by
  refine splice?_eq_some.2 ⟨_, _, _, _, hi.split? hP hle, Position.split?_stop hP ho hline hc,
    ?_, by simp⟩
  rw [← List.take_append_drop i P, List.flatten_append, List.append_assoc, List.length_append]
  simp

/-- Lines are taken out up to a place in a line, the rest of which stays. -/
theorem splice?_inside {i : Nat} {d : List Char} (hP : ∀ l ∈ P, Ends l)
    (hs : ∀ c ∈ s, isBreak c = false) (hi : r.start.Starts i) (hle : i ≤ P.length)
    (hline : r.stop.line.toNat = P.length)
    (h : splice? (P.flatten ++ s ++ '\n' :: rest) r [] = some d) :
    ∃ u, (∀ c ∈ u, isBreak c = false) ∧ d = (P.take i).flatten ++ (u ++ '\n' :: rest) := by
  obtain ⟨x, x', y, z, hstart, hstop, -, rfl⟩ := splice?_eq_some.1 h
  rw [List.append_assoc, hi.split? hP hle] at hstart
  obtain ⟨rfl, -⟩ := Prod.mk.inj (Option.some.inj hstart)
  obtain ⟨t, u, rfl, -, rfl⟩ := Position.split?_inside hP hs hline hstop
  exact ⟨u, fun c hc => hs c (List.mem_append_right _ hc), by simp⟩

/-- Lines `i` to `j` are taken out, but of line `j` something is left: its end at least. -/
theorem splice?_within {i j : Nat} {d : List Char} (hP : ∀ l ∈ P, Ends l) (hi : r.start.Starts i)
    (hij : i ≤ j) (hj : j < P.length) (hline : r.stop.line.toNat = j)
    (h : splice? (P.flatten ++ rest) r [] = some d) :
    ∃ Q : List (List Char), (∀ l ∈ Q, Ends l) ∧ Q.length + j = i + P.length ∧
      d = Q.flatten ++ rest := by
  obtain ⟨u, hu, hl⟩ := hP _ (List.getElem_mem hj)
  have hcut : P.flatten ++ rest =
      (P.take j).flatten ++ u ++ '\n' :: ((P.drop (j + 1)).flatten ++ rest) := by
    conv => lhs; rw [← List.take_append_drop j P]
    rw [List.drop_eq_getElem_cons hj, hl]
    simp
  have hlen : (P.take j).length = j := List.length_take_of_le (Nat.le_of_lt hj)
  rw [hcut] at h
  obtain ⟨v, hv, rfl⟩ := splice?_inside (fun l hl => hP l (List.mem_of_mem_take hl)) hu hi
    (by omega) (by omega) h
  refine ⟨P.take i ++ (v ++ ['\n']) :: P.drop (j + 1), ?_, ?_, ?_⟩
  · intro l hl
    rcases List.mem_append.1 hl with hl | hl
    · exact hP l (List.mem_of_mem_take hl)
    · rcases List.mem_cons.1 hl with rfl | hl
      · exact ⟨v, hv, rfl⟩
      · exact hP l (List.mem_of_mem_drop hl)
  · simp only [List.length_append, List.length_take, List.length_cons, List.length_drop]
    omega
  · rw [List.take_take, Nat.min_eq_left hij]
    simp

/-! ## Lines kept -/

/-- An event with a range that starts at line `n` or behind it. -/
def StartsFrom (n : Nat) (e : ChangeEvent) : Prop :=
  ∃ r, e.range = some r ∧ n ≤ r.start.line.toNat

/-- Lines before an event stay. -/
theorem applyTo?_keeps {e : ChangeEvent} {d : List Char} (hP : ∀ l ∈ P, Ends l)
    (he : StartsFrom P.length e) (h : applyTo? (P.flatten ++ rest) e = some d) :
    ∃ t, d = P.flatten ++ t := by
  obtain ⟨r, hr, hl⟩ := he
  rw [applyTo?, hr] at h
  obtain ⟨x, x', y, z, hstart, -, -, rfl⟩ := splice?_eq_some.1 h
  obtain ⟨t, rfl⟩ := Position.split?_keeps hP hl hstart
  exact ⟨t ++ (e.text.toList ++ z), by simp⟩

/-- No event starts behind a last line that nothing ends. -/
theorem applyTo?_behind {e : ChangeEvent} (hP : ∀ l ∈ P, Ends l) (ho : Open l)
    (he : StartsFrom (P.length + 1) e) : applyTo? (P.flatten ++ l) e = none := by
  obtain ⟨r, hr, hl⟩ := he
  simp [applyTo?, hr, splice?, Position.split?_behind hP ho hl]

/-- Lines before all events stay. -/
theorem applyAll?_keeps {es : List ChangeEvent} {d : List Char} (hP : ∀ l ∈ P, Ends l)
    (hes : ∀ e ∈ es, StartsFrom P.length e)
    (h : applyAll? (P.flatten ++ rest) es = some d) : ∃ t, d = P.flatten ++ t := by
  induction es generalizing rest with
  | nil => exact ⟨rest, (Option.some.inj h).symm⟩
  | cons e es ih =>
    rw [applyAll?] at h
    split at h
    · rename_i d' hd'
      obtain ⟨t, rfl⟩ := applyTo?_keeps hP (hes e (List.mem_cons_self ..)) hd'
      exact ih (fun e he => hes e (List.mem_cons_of_mem _ he)) h
    · cases h

theorem applyAll?_append (d : List Char) (es fs : List ChangeEvent) :
    applyAll? d (es ++ fs) = (applyAll? d es).bind fun d => applyAll? d fs := by
  induction es generalizing d with
  | nil => rfl
  | cons e es ih =>
    simp only [List.cons_append, applyAll?]
    cases applyTo? d e with
    | none => rfl
    | some d => exact ih d

end ChangeEvent

end LanguageClient
