import Mathlib
import LanguageClient.Proofs.Text.Boundary
import LanguageClient.Proofs.Text.Lines

/-!
# Texts with any terminators

A line feed ends a line, so does a carriage return, and the two in a row are
one terminator. A text that starts with a line has it in front (`Leads`); all
that is said of lines here goes from there to what follows, by `lineInduction`.

A text has a number of terminators (`breaks`) and something that stands behind
the last of them (`tail`). Terminators add up over the parts of a text as long
as none is parted (`breaks_append`), and the last part that has one decides what
is behind it (`tail_append_unbroken`, `tail_append_broken`).

* `splitAt?_eq_some`: where the line of a number starts.
* `splitAt?_split`: the lines before it are the first ones.
* `at?_eq`: the line that starts there is the one with the number.
-/
namespace LanguageClient.Line

variable {s x y b t r : List Char}

/-! ## Parted terminators -/

theorem not_parts_nil_left (y : List Char) : ¬Parts [] y := by
  simp [Parts]

theorem not_parts_nil_right (x : List Char) : ¬Parts x [] := by
  simp [Parts]

theorem parts_append_left (w : List Char) (hx : x ≠ []) : Parts (w ++ x) y ↔ Parts x y := by
  rw [Parts, Parts, List.getLast?_append_of_ne_nil _ hx]

theorem parts_append_right (hy : y ≠ []) (z : List Char) : Parts x (y ++ z) ↔ Parts x y := by
  rw [Parts, Parts, List.head?_append_of_ne_nil _ hy]

theorem not_parts_of_append_left {w : List Char} (h : ¬Parts (w ++ x) y) : ¬Parts x y := by
  by_cases hx : x = []
  · rw [hx]
    exact not_parts_nil_left y
  · rwa [← parts_append_left w hx]

theorem not_parts_of_append_right {z : List Char} (h : ¬Parts x (y ++ z)) : ¬Parts x y := by
  by_cases hy : y = []
  · rw [hy]
    exact not_parts_nil_right x
  · rwa [← parts_append_right hy z]

/-! ## Counting terminators -/

/-- A text in which no line ends. -/
def Unbroken (s : List Char) : Prop :=
  ∀ c ∈ s, isBreak c = false

/-- How many terminators a text has. A carriage return does not count if the line feed behind it
does. -/
def breaks : List Char → Nat
  | [] => 0
  | c :: s => (if isBreak c = true ∧ ¬Parts [c] s then 1 else 0) + breaks s

/-- What stands behind the last terminator of a text. -/
def tail (s : List Char) : List Char :=
  s.rtakeWhile fun c => !isBreak c

theorem Unbroken.not_parts_left (h : Unbroken x) (y : List Char) : ¬Parts x y := by
  rintro ⟨hx, -⟩
  have := h '\r' (List.mem_of_getLast? hx)
  simp [isBreak] at this

theorem Unbroken.not_parts_right (h : Unbroken y) (x : List Char) : ¬Parts x y := by
  rintro ⟨-, hy⟩
  have := h '\n' (List.mem_of_head? hy)
  simp [isBreak] at this

theorem Unbroken.of_append (h : Unbroken (x ++ y)) : Unbroken x :=
  fun c hc => h c (List.mem_append_left y hc)

theorem unbroken_tail (s : List Char) : Unbroken (tail s) := by
  intro c hc
  simpa using List.mem_rtakeWhile_imp hc

theorem breaks_cons (c : Char) (s : List Char) :
    breaks (c :: s) = (if isBreak c = true ∧ ¬Parts [c] s then 1 else 0) + breaks s :=
  rfl

theorem breaks_eq_zero : breaks s = 0 ↔ Unbroken s := by
  induction s with
  | nil => simp [breaks, Unbroken]
  | cons c s ih =>
    rw [breaks_cons, Nat.add_eq_zero_iff, ih]
    constructor
    · rintro ⟨hc, hs⟩
      refine List.forall_mem_cons.2 ⟨?_, hs⟩
      by_contra hbreak
      rw [Bool.not_eq_false] at hbreak
      rw [if_pos ⟨hbreak, hs.not_parts_right _⟩] at hc
      cases hc
    · intro h
      have hc := h c List.mem_cons_self
      exact ⟨if_neg fun hb => by simp [hc] at hb, fun d hd => h d (List.mem_cons_of_mem c hd)⟩

/-- Terminators add up where none is parted. -/
theorem breaks_append (h : ¬Parts x y) : breaks (x ++ y) = breaks x + breaks y := by
  induction x with
  | nil => simp [breaks]
  | cons c x ih =>
    cases x with
    | nil =>
      have hc : ¬Parts [c] [] := not_parts_nil_right [c]
      simp [breaks, h, hc]
    | cons d x =>
      have hd : ¬Parts (d :: x) y := by
        rwa [← parts_append_left [c] (List.cons_ne_nil d x)]
      have hc : Parts [c] (d :: x ++ y) ↔ Parts [c] (d :: x) :=
        parts_append_right (List.cons_ne_nil d x) y
      rw [List.cons_append, breaks_cons c (d :: x ++ y), breaks_cons c (d :: x), ih hd,
        Nat.add_assoc]
      simp only [hc]

theorem rdropWhile_append_tail (s : List Char) :
    (s.rdropWhile fun c => !isBreak c) ++ tail s = s :=
  List.rdropWhile_append_rtakeWhile ..

theorem Unbroken.tail_eq (h : Unbroken s) : tail s = s :=
  List.rtakeWhile_eq_self_iff.2 fun c hc => by simp [h c hc]

theorem tail_append_unbroken (x : List Char) (h : Unbroken y) : tail (x ++ y) = tail x ++ y := by
  have hall : ∀ c ∈ y.reverse, (!isBreak c) = true := fun c hc => by
    simp [h c (List.mem_reverse.1 hc)]
  simp only [tail, List.rtakeWhile, List.reverse_append, List.takeWhile_append_of_pos hall,
    List.reverse_reverse]

theorem tail_append_broken (x : List Char) (h : ¬Unbroken y) : tail (x ++ y) = tail y := by
  have hshort : (y.reverse.takeWhile fun c => !isBreak c).length ≠ y.reverse.length := by
    intro he
    have hself := (List.takeWhile_prefix (fun c => !isBreak c)).eq_of_length he
    refine h fun c hc => ?_
    have := List.mem_takeWhile_imp (hself.symm ▸ List.mem_reverse.2 hc)
    simpa using this
  simp only [tail, List.rtakeWhile, List.reverse_append]
  rw [List.takeWhile_append, if_neg hshort]

/-- Nothing stands behind the last terminator of a text that is empty or ends in one. -/
theorem tail_eq_nil : tail s = [] ↔ s.getLast?.all isBreak = true := by
  induction s using List.reverseRecOn with
  | nil => simp [tail]
  | append_singleton s c _ =>
    rw [tail, List.rtakeWhile_concat, List.getLast?_concat, Option.all_some]
    cases isBreak c <;> simp

/-! ## The first line -/

/-- The characters that end one line. -/
inductive IsTerminator : List Char → Prop
  | feed : IsTerminator ['\n']
  | carriage : IsTerminator ['\r']
  | pair : IsTerminator ['\r', '\n']

/-- A text starts with the line of content `b` that `t` ends; `r` stands behind it. -/
structure Leads (b t r : List Char) : Prop where
  content : Unbroken b
  terminator : IsTerminator t
  whole : ¬Parts t r

theorem IsTerminator.ne_nil (h : IsTerminator t) : t ≠ [] := by
  cases h <;> simp

theorem IsTerminator.tail_eq (h : IsTerminator t) : tail t = [] := by
  cases h <;> decide

theorem IsTerminator.breaks_eq (h : IsTerminator t) : breaks t = 1 := by
  cases h <;> decide

theorem IsTerminator.not_unbroken (h : IsTerminator t) : ¬Unbroken t := by
  rw [← breaks_eq_zero, h.breaks_eq]
  exact Nat.one_ne_zero

theorem exists_leads (s : List Char) : Unbroken s ∨ ∃ b t r, s = b ++ t ++ r ∧ Leads b t r := by
  induction s with
  | nil => exact .inl (by simp [Unbroken])
  | cons c s ih =>
    by_cases hc : isBreak c = true
    · right
      by_cases hp : Parts [c] s
      · obtain ⟨hc', hs⟩ := hp
        obtain ⟨s, rfl⟩ := List.head?_eq_some_iff.1 hs
        obtain rfl : c = '\r' := by simpa using hc'
        exact ⟨[], ['\r', '\n'], s, rfl, by simp [Unbroken], .pair, by simp [Parts]⟩
      · have ht : IsTerminator [c] := by
          rcases (by simpa [isBreak] using hc : c = '\n' ∨ c = '\r') with rfl | rfl
          · exact .feed
          · exact .carriage
        exact ⟨[], [c], s, rfl, by simp [Unbroken], ht, hp⟩
    · rw [Bool.not_eq_true] at hc
      rcases ih with h | ⟨b, t, r, rfl, h⟩
      · exact .inl (List.forall_mem_cons.2 ⟨hc, h⟩)
      · exact .inr ⟨c :: b, t, r, rfl, List.forall_mem_cons.2 ⟨hc, h.content⟩, h.terminator,
          h.whole⟩

/-- Induction from the last line of a text to the first. -/
@[elab_as_elim]
theorem lineInduction {motive : List Char → Prop} (s : List Char)
    (last : ∀ s, Unbroken s → motive s)
    (line : ∀ b t r, Leads b t r → motive r → motive (b ++ t ++ r)) : motive s := by
  induction hn : s.length using Nat.strongRecOn generalizing s with
  | ind n ih =>
    rcases exists_leads s with h | ⟨b, t, r, rfl, h⟩
    · exact last s h
    · have ht := List.length_pos_iff.2 h.terminator.ne_nil
      refine line b t r h (ih r.length ?_ r rfl)
      simp only [List.length_append] at hn
      omega

theorem Leads.parts_iff (h : Leads b t r) (y : List Char) : Parts (b ++ t) y ↔ Parts t y :=
  parts_append_left b h.terminator.ne_nil

theorem Leads.breaks_eq (h : Leads b t r) : breaks (b ++ t ++ r) = breaks r + 1 := by
  have hb : breaks b = 0 := breaks_eq_zero.2 h.content
  rw [breaks_append (fun hp => h.whole ((h.parts_iff r).1 hp)),
    breaks_append (h.content.not_parts_left t), hb, h.terminator.breaks_eq]
  omega

theorem Leads.tail_eq (h : Leads b t r) : tail (b ++ t ++ r) = tail r := by
  by_cases hr : Unbroken r
  · rw [tail_append_unbroken _ hr, tail_append_broken b h.terminator.not_unbroken,
      h.terminator.tail_eq, hr.tail_eq, List.nil_append]
  · exact tail_append_broken _ hr

theorem Leads.content_eq (h : Leads b t r) : Line.content (b ++ t ++ r) = b := by
  have hb : ∀ c ∈ b, (!isBreak c) = true := fun c hc => by simp [h.content c hc]
  rw [List.append_assoc, Line.content, List.takeWhile_append_of_pos hb]
  cases h.terminator <;> simp [isBreak]

theorem Leads.content_line (h : Leads b t r) : Line.content (b ++ t) = b := by
  have hline : Leads b t [] := ⟨h.content, h.terminator, not_parts_nil_right t⟩
  simpa using hline.content_eq

theorem Leads.break?_eq (h : Leads b t r) : break? (b ++ t ++ r) = some (b, t, r) := by
  obtain ⟨hb, ht, hp⟩ := h
  induction b with
  | nil =>
    cases ht with
    | feed => simp [break?, isBreak]
    | carriage =>
      cases r with
      | nil => rfl
      | cons c r =>
        have hc : c ≠ '\n' := fun hc => hp ⟨rfl, by rw [hc]; rfl⟩
        simp [break?, isBreak, hc]
    | pair => rfl
  | cons c b ih =>
    have hc := hb c List.mem_cons_self
    have hr := ne_carriage hc
    have ih := ih fun d hd => hb d (List.mem_cons_of_mem c hd)
    rw [List.append_assoc] at ih ⊢
    simp [break?, hr, hc, ih]

theorem Leads.split_eq (h : Leads b t r) : split (b ++ t ++ r) = (b ++ t) :: split r := by
  obtain ⟨hb, ht, hp⟩ := h
  induction b with
  | nil =>
    cases ht with
    | feed => simp [split, isBreak]
    | carriage =>
      cases r with
      | nil => rfl
      | cons c r =>
        have hc : c ≠ '\n' := fun hc => hp ⟨rfl, by rw [hc]; rfl⟩
        simp [split, isBreak, hc]
    | pair => rfl
  | cons c b ih =>
    have hc := hb c List.mem_cons_self
    have hr := ne_carriage hc
    have ih := ih fun d hd => hb d (List.mem_cons_of_mem c hd)
    rw [List.append_assoc] at ih ⊢
    simp [split, hr, hc, ih]

/-- What a text starts with starts with the same line, if it has one. -/
theorem Leads.of_append (h : Leads b t (x ++ y)) : Leads b t x :=
  ⟨h.content, h.terminator, not_parts_of_append_right h.whole⟩

/-- The first line stays what it is if more text follows. -/
theorem Leads.append (h : Leads b t x) (hp : ¬Parts (b ++ t ++ x) y) : Leads b t (x ++ y) := by
  refine ⟨h.content, h.terminator, ?_⟩
  by_cases hx : x = []
  · subst hx
    rwa [List.append_nil, h.parts_iff] at hp
  · rw [parts_append_right hx]
    exact h.whole

theorem Unbroken.split_eq (h : Unbroken s) (hs : s ≠ []) : split s = [s] := by
  induction s with
  | nil => exact absurd rfl hs
  | cons c s ih =>
    have hc := h c List.mem_cons_self
    have hr := ne_carriage hc
    have ih := ih fun d hd => h d (List.mem_cons_of_mem c hd)
    cases s with
    | nil => simp [split, hc]
    | cons d s => simp [split, hr, hc, ih (List.cons_ne_nil d s)]

/-! ## The start of a line -/

theorem Leads.splitAt?_succ (h : Leads b t r) (n : Nat) :
    splitAt? (n + 1) (b ++ t ++ r) = (splitAt? n r).map fun (x, y) => (b ++ t ++ x, y) := by
  simp only [splitAt?, h.break?_eq, Option.bind_eq_bind, Option.bind_some]
  cases splitAt? n r <;> rfl

/-- Line `n` starts where `n` terminators stand before it, the last of them right before and
whole. -/
theorem splitAt?_eq_some {n : Nat} : splitAt? n s = some (x, y) ↔
    s = x ++ y ∧ ¬Parts x y ∧ breaks x = n ∧ tail x = [] := by
  induction s using lineInduction generalizing n x with
  | last s hs =>
    cases n with
    | zero =>
      constructor
      · intro h
        obtain ⟨rfl, rfl⟩ := Prod.mk.inj (Option.some.inj h)
        exact ⟨rfl, not_parts_nil_left s, rfl, rfl⟩
      · rintro ⟨rfl, -, -, htail⟩
        rw [hs.of_append.tail_eq] at htail
        rw [htail]
        rfl
    | succ n =>
      rw [splitAt?_open hs]
      refine iff_of_false (by simp) ?_
      rintro ⟨rfl, -, hbreaks, -⟩
      rw [breaks_eq_zero.2 hs.of_append] at hbreaks
      cases hbreaks
  | line b t r h ih =>
    cases n with
    | zero =>
      constructor
      · intro hcut
        obtain ⟨rfl, rfl⟩ := Prod.mk.inj (Option.some.inj hcut)
        exact ⟨rfl, not_parts_nil_left _, rfl, rfl⟩
      · rintro ⟨he, -, hbreaks, htail⟩
        rw [(breaks_eq_zero.1 hbreaks).tail_eq] at htail
        rw [he, htail]
        rfl
    | succ n =>
      rw [h.splitAt?_succ, Option.map_eq_some_iff]
      constructor
      · rintro ⟨⟨x, y⟩, hcut, he⟩
        obtain ⟨rfl, rfl⟩ := Prod.mk.inj he
        obtain ⟨rfl, hp, hbreaks, htail⟩ := ih.1 hcut
        have hx := h.of_append
        refine ⟨by simp, ?_, by rw [hx.breaks_eq, hbreaks], by rw [hx.tail_eq, htail]⟩
        by_cases hnil : x = []
        · subst hnil
          rw [List.append_nil, h.parts_iff]
          exact h.whole
        · rwa [parts_append_left _ hnil]
      · rintro ⟨he, hp, hbreaks, htail⟩
        -- The first line of what stands before is the first line of all.
        rcases exists_leads x with hx | ⟨b', t', x, rfl, hx⟩
        · rw [breaks_eq_zero.2 hx] at hbreaks
          cases hbreaks
        have hall := hx.append hp
        have hcut := h.break?_eq
        rw [he, List.append_assoc _ x y, hall.break?_eq] at hcut
        obtain ⟨rfl, rfl, rfl⟩ : b' = b ∧ t' = t ∧ x ++ y = r := by simpa using hcut
        rw [hx.breaks_eq] at hbreaks
        rw [hx.tail_eq] at htail
        exact ⟨(x, y), ih.2 ⟨rfl, not_parts_of_append_left hp, Nat.succ.inj hbreaks, htail⟩, rfl⟩

/-- Line `n` starts behind the first `n` lines, and there are such lines up to the number of
terminators. -/
theorem splitAt?_split (s : List Char) (n : Nat) : splitAt? n s =
    if n ≤ breaks s then some (((split s).take n).flatten, ((split s).drop n).flatten)
    else none := by
  induction s using lineInduction generalizing n with
  | last s hs =>
    cases n with
    | zero => simp [splitAt?, flatten_split]
    | succ n => rw [splitAt?_open hs, breaks_eq_zero.2 hs, if_neg (by omega)]
  | line b t r h ih =>
    cases n with
    | zero => simp [splitAt?, flatten_split]
    | succ n =>
      rw [h.splitAt?_succ, ih, h.breaks_eq, h.split_eq]
      simp only [Nat.add_le_add_iff_right]
      split <;> simp

/-! ## Lines by their numbers -/

theorem length_split (s : List Char) :
    (split s).length = breaks s + if tail s = [] then 0 else 1 := by
  induction s using lineInduction with
  | last s hs =>
    rw [breaks_eq_zero.2 hs, hs.tail_eq]
    by_cases h : s = []
    · rw [h]
      rfl
    · rw [hs.split_eq h, if_neg h]
      rfl
  | line b t r h ih =>
    rw [h.split_eq, h.breaks_eq, h.tail_eq, List.length_cons, ih]
    omega

/-- The content of the line with a number. Behind a text that is empty, or ends in a terminator,
one more line is there, and it is empty. -/
def at? (s : List Char) (n : Nat) : Option (List Char) :=
  if n = (split s).length ∧ s.getLast?.all isBreak = true then some []
  else (split s)[n]?.map content

theorem Leads.at?_zero (h : Leads b t r) : at? (b ++ t ++ r) 0 = some b := by
  have hne : ¬(0 = (split (b ++ t ++ r)).length ∧ (b ++ t ++ r).getLast?.all isBreak = true) := by
    rw [h.split_eq]
    simp
  rw [at?, if_neg hne, h.split_eq, List.getElem?_cons_zero, Option.map_some, h.content_line]

theorem Leads.at?_succ (h : Leads b t r) (n : Nat) : at? (b ++ t ++ r) (n + 1) = at? r n := by
  simp only [at?, ← tail_eq_nil, h.split_eq, h.tail_eq, List.length_cons,
    List.getElem?_cons_succ, Nat.add_right_cancel_iff]

/-- The line with a number is the one that starts behind as many terminators. -/
theorem at?_eq (s : List Char) (n : Nat) :
    at? s n = (splitAt? n s).map fun (_, rest) => content rest := by
  induction s using lineInduction generalizing n with
  | last s hs =>
    have hopen : s ≠ [] → ¬(s.getLast?.all isBreak = true) := by
      rw [← tail_eq_nil, hs.tail_eq]
      exact id
    by_cases h : s = []
    · subst h
      cases n <;> simp [at?, split, splitAt?, content, break?]
    · rw [at?, if_neg fun he => hopen h he.2, hs.split_eq h]
      cases n with
      | zero => rfl
      | succ n =>
        rw [splitAt?_open hs]
        simp
  | line b t r h ih =>
    cases n with
    | zero =>
      rw [h.at?_zero]
      exact congrArg some h.content_eq.symm
    | succ n =>
      rw [h.at?_succ, ih, h.splitAt?_succ, Option.map_map]
      rfl

end LanguageClient.Line
