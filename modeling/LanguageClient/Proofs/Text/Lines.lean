import LanguageClient.Position

/-!
# Texts without carriage returns

Where the only terminator is the line feed, a text is its lines, each of them
ended but perhaps the last (`Lined`), and nothing that follows an ended line
has a say in where it ends.

* `lined_split`, `flatten_split`: a text is its lines.
* `prefix_of_flatten`: the lines a text starts with are its first lines.
* `splitAt?_flatten`: a text is cut behind the lines it starts with.
-/
namespace LanguageClient.Line

/-- A line that a line feed ends. -/
def Ends (l : List Char) : Prop :=
  ∃ s, (∀ c ∈ s, isBreak c = false) ∧ l = s ++ ['\n']

/-- A line that nothing ends. -/
def Open (l : List Char) : Prop :=
  l ≠ [] ∧ ∀ c ∈ l, isBreak c = false

/-- The lines of a text. -/
inductive Lined : List (List Char) → Prop
  | nil : Lined []
  | last {l : List Char} : Open l → Lined [l]
  | cons {l : List Char} {ls : List (List Char)} : Ends l → Lined ls → Lined (l :: ls)

variable {P ls ms : List (List Char)} {l s rest : List Char}

/-! ## Several lines -/

theorem ends_append (hl : ∀ l ∈ ls, Ends l) (hm : ∀ l ∈ ms, Ends l) : ∀ l ∈ ls ++ ms, Ends l :=
  fun l h => (List.mem_append.1 h).elim (hl l) (hm l)

theorem lined_append (h : ∀ l ∈ P, Ends l) : Lined (P ++ ls) ↔ Lined ls := by
  induction P with
  | nil => rfl
  | cons l P ih =>
    have hl := h l (List.mem_cons_self ..)
    have ih := ih fun m hm => h m (List.mem_cons_of_mem _ hm)
    refine ⟨fun hL => ?_, fun hL => .cons hl (ih.2 hL)⟩
    cases hP : P ++ ls with
    | nil =>
      rw [(List.append_eq_nil_iff.1 hP).2]
      exact .nil
    | cons m r =>
      rw [List.cons_append, hP] at hL
      cases hL with
      | cons _ hL => exact ih.1 (hP ▸ hL)

/-- Every line that another one follows is ended. -/
theorem Lined.ends_of_append (h : Lined (ls ++ ms)) (hm : ms ≠ []) : ∀ l ∈ ls, Ends l := by
  induction ls with
  | nil => simp
  | cons l ls ih =>
    cases hL : ls ++ ms with
    | nil => exact absurd (List.append_eq_nil_iff.1 hL).2 hm
    | cons m r =>
      rw [List.cons_append, hL] at h
      cases h with
      | cons hl hr =>
        intro x hx
        rcases List.mem_cons.1 hx with rfl | hx
        · exact hl
        · exact ih (hL ▸ hr) x hx

theorem Lined.of_append (h : Lined (ls ++ ms)) : Lined ms := by
  by_cases hm : ms = []
  · rw [hm]
    exact .nil
  · exact (lined_append (h.ends_of_append hm)).1 h

theorem Lined.drop (h : Lined ls) (n : Nat) : Lined (ls.drop n) := by
  rw [← List.take_append_drop n ls] at h
  exact h.of_append

/-- All lines are ended, or the last one is not. -/
theorem Lined.ends_or (h : Lined ls) :
    (∀ l ∈ ls, Ends l) ∨ ∃ ms l, ls = ms ++ [l] ∧ (∀ m ∈ ms, Ends m) ∧ Open l := by
  induction h with
  | nil => exact .inl (by simp)
  | last hl => exact .inr ⟨[], _, rfl, by simp, hl⟩
  | cons hl _ ih =>
    rcases ih with h | ⟨ms, m, rfl, hms, hm⟩
    · exact .inl (by simpa using ⟨hl, h⟩)
    · exact .inr ⟨_ :: ms, m, rfl, by simpa using ⟨hl, hms⟩, hm⟩

theorem Open.not_ends (h : Open l) : ¬Ends l := by
  rintro ⟨s, -, rfl⟩
  have hn := h.2 '\n' (by simp)
  simp [isBreak] at hn

/-! ## Terminators -/

theorem ne_carriage {c : Char} (h : isBreak c = false) : c ≠ '\r' := by
  rintro rfl
  simp [isBreak] at h

theorem takeWhile_append_break (h : ∀ c ∈ s, isBreak c = false) :
    (s ++ '\n' :: rest).takeWhile (fun c => !isBreak c) = s := by
  induction s with
  | nil => simp [isBreak]
  | cons c s ih =>
    have hc := h c (List.mem_cons_self ..)
    simp [hc, ih fun d hd => h d (List.mem_cons_of_mem _ hd)]

theorem content_open (h : ∀ c ∈ s, isBreak c = false) : content s = s := by
  induction s with
  | nil => rfl
  | cons c s ih =>
    have hc := h c (List.mem_cons_self ..)
    have ih := ih fun d hd => h d (List.mem_cons_of_mem _ hd)
    simp only [content] at ih ⊢
    simp [hc, ih]

theorem isTerminated_of_ends (h : Ends l) : isTerminated l = true := by
  obtain ⟨s, hs, rfl⟩ := h
  simp [isTerminated, content, takeWhile_append_break hs]

theorem isTerminated_of_open (h : Open l) : isTerminated l = false := by
  simp [isTerminated, content_open h.2]

theorem break?_append (h : ∀ c ∈ s, isBreak c = false) :
    break? (s ++ '\n' :: rest) = some (s, ['\n'], rest) := by
  induction s with
  | nil => simp [break?, isBreak]
  | cons c s ih =>
    have hc := h c (List.mem_cons_self ..)
    have hr := ne_carriage hc
    simp [break?, hr, hc, ih fun d hd => h d (List.mem_cons_of_mem _ hd)]

theorem break?_open (h : ∀ c ∈ s, isBreak c = false) : break? s = none := by
  induction s with
  | nil => rfl
  | cons c s ih =>
    have hc := h c (List.mem_cons_self ..)
    have hr := ne_carriage hc
    simp [break?, hr, hc, ih fun d hd => h d (List.mem_cons_of_mem _ hd)]

/-- A text is cut behind the lines it starts with, and then further on. -/
theorem splitAt?_flatten (h : ∀ l ∈ P, Ends l) (n : Nat) (rest : List Char) :
    splitAt? (P.length + n) (P.flatten ++ rest) =
      (splitAt? n rest).map fun (x, y) => (P.flatten ++ x, y) := by
  induction P with
  | nil => simp
  | cons l P ih =>
    obtain ⟨s, hs, rfl⟩ := h l (List.mem_cons_self ..)
    have ih := ih fun m hm => h m (List.mem_cons_of_mem _ hm)
    rw [List.length_cons, Nat.add_right_comm]
    have hcut : ((s ++ ['\n']) :: P).flatten ++ rest = s ++ '\n' :: (P.flatten ++ rest) := by simp
    rw [hcut]
    simp only [splitAt?, break?_append hs, Option.bind_eq_bind, Option.bind_some]
    rw [ih]
    cases splitAt? n rest <;> simp

theorem splitAt?_open (h : ∀ c ∈ s, isBreak c = false) (n : Nat) :
    splitAt? (n + 1) s = none := by
  simp [splitAt?, break?_open h]

/-! ## A text is its lines -/

theorem flatten_split (s : List Char) : (split s).flatten = s := by
  induction s using split.induct with
  | case1 => rfl
  | case2 s ih => simp [split, ih]
  | case3 c s hc hb ih => simp [split, hb, ih]
  | case4 c s hc hb hs ih =>
    rw [hs] at ih
    have hsplit : split (c :: s) = [[c]] := by simp [split, hb, hs]
    rw [hsplit, ← ih]
    rfl
  | case5 c s hc hb line lines hs ih =>
    rw [hs] at ih
    have hsplit : split (c :: s) = (c :: line) :: lines := by simp [split, hb, hs]
    rw [hsplit, ← ih]
    rfl

theorem lined_split (h : '\r' ∉ s) : Lined (split s) := by
  induction s with
  | nil => exact .nil
  | cons c s ih =>
    have hr : c ≠ '\r' := fun hr => h (hr ▸ List.mem_cons_self ..)
    have ih := ih fun hs => h (List.mem_cons_of_mem _ hs)
    by_cases hb : isBreak c = true
    · obtain rfl : c = '\n' := by simpa [isBreak, hr] using hb
      have hsplit : split ('\n' :: s) = ['\n'] :: split s := by simp [split, isBreak]
      rw [hsplit]
      exact .cons ⟨[], by simp, rfl⟩ ih
    · have hb : isBreak c = false := by simpa using hb
      have hcons : ∀ {t : List Char}, (∀ d ∈ t, isBreak d = false) →
          ∀ d ∈ c :: t, isBreak d = false := by
        intro t ht
        simpa [hb] using ht
      cases hs : split s with
      | nil =>
        have hsplit : split (c :: s) = [[c]] := by simp [split, hr, hb, hs]
        rw [hsplit]
        exact .last ⟨by simp, hcons (by simp)⟩
      | cons line lines =>
        have hsplit : split (c :: s) = (c :: line) :: lines := by simp [split, hr, hb, hs]
        rw [hsplit]
        rw [hs] at ih
        cases ih with
        | last hl => exact .last ⟨by simp, hcons hl.2⟩
        | cons hl hlines =>
          obtain ⟨t, ht, rfl⟩ := hl
          exact .cons ⟨c :: t, hcons ht, rfl⟩ hlines

/-- The lines a text starts with are its first lines. -/
theorem prefix_of_flatten (hP : ∀ l ∈ P, Ends l) (hls : Lined ls)
    (h : ls.flatten = P.flatten ++ rest) : ∃ ms, ls = P ++ ms ∧ ms.flatten = rest := by
  induction P generalizing ls with
  | nil => exact ⟨ls, rfl, h⟩
  | cons l P ih =>
    obtain ⟨s, hs, rfl⟩ := hP l (List.mem_cons_self ..)
    have hcut : ls.flatten = s ++ '\n' :: (P.flatten ++ rest) := by simpa using h
    cases hls with
    | nil => simp at hcut
    | last hm =>
      rw [List.flatten_cons, List.flatten_nil, List.append_nil] at hcut
      have hn := hm.2 '\n' (by simp [hcut])
      simp [isBreak] at hn
    | cons hm hr =>
      rename_i m r
      obtain ⟨t, ht, rfl⟩ := hm
      have hcut : t ++ '\n' :: r.flatten = s ++ '\n' :: (P.flatten ++ rest) := by simpa using hcut
      have hst : t = s := by
        have htake := congrArg (List.takeWhile fun c => !isBreak c) hcut
        rwa [takeWhile_append_break ht, takeWhile_append_break hs] at htake
      subst hst
      obtain ⟨ms, rfl, hms⟩ := ih (fun m hm => hP m (List.mem_cons_of_mem _ hm)) hr
        (by simpa using hcut)
      exact ⟨ms, rfl, hms⟩

end LanguageClient.Line
