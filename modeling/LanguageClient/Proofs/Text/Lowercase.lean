import LanguageClient.Text.Lowercase

/-!
# Lower case in context

The lower-case form of a character does not depend on its neighbours, unless
it is a capital sigma, whose form asks for a cased character before it and for
none behind it. So a part of a text has the lower-case form that it has on its
own as long as no capital sigma in it takes another form there. One that can is
`Open`: what decides its form may still come in front of the part or behind it.

* `lower_append`: the lower-case form of a text, by its parts.
* `lowerBetween_of_closed`: a text without an open sigma has one lower-case
  form wherever it stands.
* `exists_not_infix`: a text with an open sigma is part of some text whose
  lower-case form does not contain the lower-case form of the part.
-/
namespace LanguageClient.Lowercase

variable {s t u v before behind : List Char}

/-- Whether a capital sigma between these texts has its final form. The text before it is given
last character first. -/
def isFinal (before behind : List Char) : Bool :=
  startsCased before && !startsCased behind

/-- The lower-case form of a character between others. -/
def lowerAt (before : List Char) (c : Char) (behind : List Char) : List Char :=
  if c = 'Σ' then if isFinal before behind then ['ς'] else ['σ'] else lowerChar c

/-- The lower-case form of a text between others. -/
def lowerBetween (before : List Char) : List Char → List Char → List Char
  | [], _ => []
  | c :: s, behind => lowerAt before c (s ++ behind) ++ lowerBetween (c :: before) s behind

/-! ## A text by its parts -/

theorem lowerFrom_cons (before : List Char) (c : Char) (s : List Char) :
    lowerFrom before (c :: s) = lowerAt before c s ++ lowerFrom (c :: before) s :=
  rfl

theorem lowerBetween_append (before s t behind : List Char) :
    lowerBetween before (s ++ t) behind =
      lowerBetween before s (t ++ behind) ++ lowerBetween (s.reverse ++ before) t behind := by
  induction s generalizing before with
  | nil => rfl
  | cons c s ih => simp [lowerBetween, ih]

theorem lowerFrom_eq (before s : List Char) : lowerFrom before s = lowerBetween before s [] := by
  induction s generalizing before with
  | nil => rfl
  | cons c s ih => rw [lowerFrom_cons, ih, lowerBetween, List.append_nil]

theorem lower_eq (s : List Char) : lower s = lowerBetween [] s [] :=
  lowerFrom_eq [] s

/-- What stands between two others has its lower-case form between theirs. -/
theorem lower_append (s t u : List Char) :
    lower (s ++ t ++ u) = lowerBetween [] s (t ++ u) ++ lowerBetween s.reverse t u ++
      lowerBetween (s ++ t).reverse u [] := by
  rw [lower_eq, lowerBetween_append, lowerBetween_append]
  simp

/-- Without a capital sigma every character has its own form. -/
theorem lowerBetween_of_not_mem (h : 'Σ' ∉ s) (before behind : List Char) :
    lowerBetween before s behind = s.flatMap lowerChar := by
  induction s generalizing before with
  | nil => rfl
  | cons c s ih =>
    rw [List.mem_cons, not_or] at h
    rw [lowerBetween, ih h.2, lowerAt, if_neg (Ne.symm h.1), List.flatMap_cons]

/-! ## What is passed over -/

/-- A text that is passed over when a cased character is looked for. -/
def Skipped (s : List Char) : Prop :=
  ∀ c ∈ s, CaseTable.ignorable.contains c = true

theorem not_ignorable_sigma : CaseTable.ignorable.contains 'Σ' = false := by
  decide +kernel

theorem not_skipped_sigma (s : List Char) : ¬ Skipped ('Σ' :: s) := by
  intro h
  have := h 'Σ' (by simp)
  rw [not_ignorable_sigma] at this
  cases this

theorem Skipped.not_mem_sigma (h : Skipped s) : 'Σ' ∉ s := by
  intro hs
  have := h 'Σ' hs
  rw [not_ignorable_sigma] at this
  cases this

theorem skipped_reverse : Skipped s.reverse ↔ Skipped s := by
  simp [Skipped]

theorem Skipped.startsCased_append (h : Skipped s) (t : List Char) :
    startsCased (s ++ t) = startsCased t := by
  rw [startsCased, startsCased, List.dropWhile_append_of_pos h]

theorem Skipped.startsCased (h : Skipped s) : startsCased s = false := by
  have hs := h.startsCased_append []
  rwa [List.append_nil] at hs

/-- What is not passed over hides what is behind it. -/
theorem startsCased_append (h : ¬ Skipped s) (t : List Char) :
    startsCased (s ++ t) = startsCased s := by
  induction s with
  | nil => exact absurd (fun c hc => by cases hc) h
  | cons c s ih =>
    by_cases hc : CaseTable.ignorable.contains c = true
    · have hs : ¬ Skipped s := fun hs => h (List.forall_mem_cons.2 ⟨hc, hs⟩)
      simpa [startsCased, hc] using ih hs
    · simp [startsCased, hc]

/-! ## Sigmas that are open -/

/-- A capital sigma between these texts takes the other form if a cased character comes in front of
them or behind them. -/
def Open (u v : List Char) : Prop :=
  (Skipped u ∧ startsCased v = false) ∨ (startsCased u.reverse = true ∧ Skipped v)

/-- Every capital sigma of a text has its form for good. -/
def Closed (s : List Char) : Prop :=
  ∀ u v, s = u ++ 'Σ' :: v → ¬ Open u v

theorem isFinal_of_not_open (h : ¬ Open u v) (before behind : List Char) :
    isFinal (u.reverse ++ before) (v ++ behind) = isFinal u.reverse v := by
  by_cases hu : Skipped u
  · -- Nothing cased is before it yet, so something cased is behind it.
    have hcased : startsCased v = true := by
      rw [← Bool.not_eq_false]
      exact fun hv => h (.inl ⟨hu, hv⟩)
    have hv : ¬ Skipped v := fun hv => by
      rw [hv.startsCased] at hcased
      cases hcased
    simp [isFinal, startsCased_append hv, hcased]
  · have hbefore := startsCased_append (fun hr => hu (skipped_reverse.1 hr)) before
    by_cases hcased : startsCased u.reverse = true
    · have hv : ¬ Skipped v := fun hv => h (.inr ⟨hcased, hv⟩)
      simp [isFinal, hbefore, startsCased_append hv]
    · simp [isFinal, hbefore, hcased]

theorem lowerBetween_of_not_open (h : ∀ x y, s = x ++ 'Σ' :: y → ¬ Open (u ++ x) y)
    (before behind : List Char) :
    lowerBetween (u.reverse ++ before) s behind = lowerBetween u.reverse s [] := by
  induction s generalizing u with
  | nil => rfl
  | cons c s ih =>
    have hrest : lowerBetween ((u ++ [c]).reverse ++ before) s behind =
        lowerBetween (u ++ [c]).reverse s [] :=
      ih fun x y hs => by
        rw [List.append_assoc, List.singleton_append]
        exact h (c :: x) y (by rw [hs, List.cons_append])
    rw [List.reverse_append, List.reverse_singleton, List.singleton_append] at hrest
    rw [lowerBetween, lowerBetween, ← List.cons_append, hrest, List.append_nil]
    congr 1
    by_cases hc : c = 'Σ'
    · subst hc
      have hopen := h [] s rfl
      rw [List.append_nil] at hopen
      rw [lowerAt, lowerAt, isFinal_of_not_open hopen]
    · rw [lowerAt, lowerAt, if_neg hc, if_neg hc]

/-- A text without an open sigma has one lower-case form wherever it stands. -/
theorem lowerBetween_of_closed (h : Closed s) (before behind : List Char) :
    lowerBetween before s behind = lower s := by
  rw [lower_eq]
  exact lowerBetween_of_not_open (u := []) h before behind

/-! ## An open sigma takes another form -/

theorem lower_alpha : lowerChar 'Α' = ['α'] := by
  decide +kernel

theorem startsCased_alpha : startsCased ['Α'] = true := by
  decide +kernel

/-- Behind what is not passed over, what is before it makes no difference. -/
theorem lowerBetween_behind (h : ¬ Skipped t) (before s behind : List Char) :
    lowerBetween (t ++ before) s behind = lowerBetween t s behind := by
  induction s generalizing t with
  | nil => rfl
  | cons c s ih =>
    have ht : ¬ Skipped (c :: t) := fun hs => h fun d hd => hs d (List.mem_cons_of_mem _ hd)
    have hfinal : isFinal (t ++ before) (s ++ behind) = isFinal t (s ++ behind) := by
      rw [isFinal, isFinal, startsCased_append h]
    rw [lowerBetween, lowerBetween, ← List.cons_append, ih ht, lowerAt, lowerAt, hfinal]

/-- In front of what is not passed over, what is behind it makes no difference. -/
theorem lowerBetween_before (h : ¬ Skipped t) (before s behind : List Char) :
    lowerBetween before s (t ++ behind) = lowerBetween before s t := by
  induction s generalizing before with
  | nil => rfl
  | cons c s ih =>
    have ht : ¬ Skipped (s ++ t) := fun hs => h fun d hd => hs d (List.mem_append_right _ hd)
    have hfinal : isFinal before (s ++ t ++ behind) = isFinal before (s ++ t) := by
      rw [isFinal, isFinal, startsCased_append ht]
    rw [lowerBetween, lowerBetween, ih, ← List.append_assoc, lowerAt, lowerAt, hfinal]

/-- The form of a text around one of its capital sigmas. -/
theorem lowerBetween_sigma (before u v behind : List Char) :
    lowerBetween before (u ++ 'Σ' :: v) behind =
      lowerBetween before u ['Σ'] ++
        (if isFinal (u.reverse ++ before) (v ++ behind) then ['ς'] else ['σ']) ++
          lowerBetween ['Σ'] v behind := by
  have hleft : lowerBetween before u ('Σ' :: v ++ behind) = lowerBetween before u ['Σ'] :=
    lowerBetween_before (not_skipped_sigma []) before u (v ++ behind)
  have hright : lowerBetween ('Σ' :: (u.reverse ++ before)) v behind =
      lowerBetween ['Σ'] v behind :=
    lowerBetween_behind (not_skipped_sigma []) (u.reverse ++ before) v behind
  rw [lowerBetween_append, hleft, lowerBetween, hright, lowerAt, if_pos rfl, List.append_assoc]

/-- A text with fewer of some character does not contain one with more of it. -/
theorem not_infix_of_count {c : Char} (h : t.count c < s.count c) : ¬ s <:+: t := fun hs =>
  absurd (hs.sublist.count_le c) (Nat.not_le.2 h)

/-- Behind a cased letter, a sigma that has only what is passed over before it gets its final
form. -/
theorem not_infix_behind_letter (hu : Skipped u) (hv : startsCased v = false) :
    ¬ lower (u ++ 'Σ' :: v) <:+: lower ('Α' :: (u ++ 'Σ' :: v)) := by
  have halone : isFinal (u.reverse ++ []) (v ++ []) = false := by
    simp [isFinal, (skipped_reverse.2 hu).startsCased]
  have hletter : isFinal (u.reverse ++ ['Α']) (v ++ []) = true := by
    simp [isFinal, (skipped_reverse.2 hu).startsCased_append, startsCased_alpha, hv]
  have hleft := lowerBetween_of_not_mem hu.not_mem_sigma
  have hsplit : lower ('Α' :: (u ++ 'Σ' :: v)) =
      ['α'] ++ lowerBetween ['Α'] (u ++ 'Σ' :: v) [] := by
    rw [lower_eq, lowerBetween, lowerAt, if_neg (by decide), lower_alpha]
  refine not_infix_of_count (c := 'σ') ?_
  rw [hsplit, lower_eq, lowerBetween_sigma, lowerBetween_sigma, halone, hletter, hleft, hleft]
  simp

/-- In front of a cased letter, a final sigma that has only what is passed over behind it is not
final any more. -/
theorem not_infix_before_letter (hu : startsCased u.reverse = true) (hv : Skipped v) :
    ¬ lower (u ++ 'Σ' :: v) <:+: lower (u ++ 'Σ' :: v ++ ['Α']) := by
  have halone : isFinal (u.reverse ++ []) (v ++ []) = true := by
    simp [isFinal, hu, hv.startsCased]
  have hletter : isFinal (u.reverse ++ []) (v ++ ['Α']) = false := by
    simp [isFinal, hv.startsCased_append, startsCased_alpha]
  have hright := lowerBetween_of_not_mem hv.not_mem_sigma
  have hlast (before : List Char) : lowerBetween before ['Α'] [] = ['α'] := by
    simp [lowerBetween, lowerAt, lower_alpha]
  refine not_infix_of_count (c := 'ς') ?_
  rw [lower_eq, lower_eq, lowerBetween_append _ (u ++ 'Σ' :: v), List.append_nil, hlast,
    lowerBetween_sigma, lowerBetween_sigma, halone, hletter, hright, hright]
  simp

/-- A text with an open sigma is part of one whose lower-case form does not contain that of the
part. -/
theorem exists_not_infix (h : ¬ Closed s) : ∃ t, s <:+: t ∧ ¬ lower s <:+: lower t := by
  simp only [Closed, Classical.not_forall, Classical.not_not] at h
  obtain ⟨u, v, rfl, hopen⟩ := h
  rcases hopen with ⟨hu, hv⟩ | ⟨hu, hv⟩
  · exact ⟨_, (List.suffix_cons 'Α' _).isInfix, not_infix_behind_letter hu hv⟩
  · exact ⟨_, (List.prefix_append _ ['Α']).isInfix, not_infix_before_letter hu hv⟩

end LanguageClient.Lowercase
