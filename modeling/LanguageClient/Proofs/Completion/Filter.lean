import Mathlib
import LanguageClient.Completion.Cache
import LanguageClient.Proofs.Sorting
import LanguageClient.Proofs.Text.Lowercase

/-!
# What is listed, and in which order

Filtering picks the items whose labels contain the typed text, letter case
aside, and sorts them by their `grades`. It is told by the places of the items
(`IsRanking`), since a list may have an item twice.

* `filter_ranked`: every item that matches is picked once, the better ones
  first and equal ones as they were received, and what is picked is picked
  again as it is.
* `literal_kept`: a label that contains a typed text as it is matches as long
  as no capital sigma of the text has another form in the label. Typed texts
  of which no sigma can have another form are those that match in all labels
  that contain them.
* `literal_hidden`: a label that contains a capital sigma and does not match it.
-/
namespace LanguageClient.Completion

open Lowercase (lower lowerBetween Closed)

variable {items : List CompletionItem} {typed label : List Char}

/-! ## Matching -/

theorem occursIn_iff {s t : List Char} : occursIn s t = true ↔ s <:+: t := by
  induction t with
  | nil => simp [occursIn]
  | cons c t ih => simp [occursIn, ih, List.infix_cons_iff]

theorem isKept_iff : isKept typed label = true ↔ lower typed <:+: lower label :=
  occursIn_iff

/-! ## Grades -/

/-- What is said of a label by its rank: whether it is the typed text, contains it, is it but for
letter case, starts with it, or starts with it but for letter case. -/
def grades (label typed : List Char) : Rank :=
  [decide (label = typed), decide (typed <:+: label), decide (lower label = lower typed),
    decide (typed <+: label), decide (lower typed <+: lower label)]

theorem rank_eq (label typed : List Char) : rank label typed = grades label typed := by
  simp only [rank, grades, ← List.isPrefixOf_iff_prefix, ← occursIn_iff, Bool.decide_eq_true,
    Bool.beq_eq_decide_eq]

/-- Of two ranks with as many parts, one is at least as good as the other if it is not less in
lexicographic order. -/
theorem atLeast_iff {a b : Rank} (h : a.length = b.length) : atLeast a b = true ↔ ¬ a < b := by
  induction a generalizing b with
  | nil =>
    cases b with
    | nil => simp [atLeast]
    | cons => cases h
  | cons x a ih =>
    cases b with
    | nil => cases h
    | cons y b =>
      rw [atLeast, List.cons_lt_cons_iff]
      by_cases hxy : x = y
      · simp [hxy, ih (Nat.succ.inj h)]
      · cases x <;> cases y <;> simp_all

/-- Whether an item need not stand behind another. -/
def comesFirst (typed : List Char) (a b : CompletionItem) : Bool :=
  decide (¬ grades a.label.toList typed < grades b.label.toList typed)

theorem comesFirst_iff {a b : CompletionItem} : comesFirst typed a b = true ↔
    ¬ grades a.label.toList typed < grades b.label.toList typed :=
  decide_eq_true_iff

theorem filter_eq (items : List CompletionItem) (typed : List Char) :
    filter items typed =
      (items.filter fun item => isKept typed item.label.toList).mergeSort (comesFirst typed) := by
  have horder (a b : CompletionItem) :
      atLeast (rank a.label.toList typed) (rank b.label.toList typed) = comesFirst typed a b := by
    rw [rank_eq, rank_eq, Bool.eq_iff_iff, comesFirst_iff]
    exact atLeast_iff rfl
  simp only [filter, horder]

theorem comesFirst_trans (typed : List Char) (a b c : CompletionItem)
    (hab : comesFirst typed a b = true) (hbc : comesFirst typed b c = true) :
    comesFirst typed a c = true := by
  rw [comesFirst_iff, not_lt] at hab hbc ⊢
  exact le_trans hbc hab

theorem comesFirst_total (typed : List Char) (a b : CompletionItem) :
    (comesFirst typed a b || comesFirst typed b a) = true := by
  rw [Bool.or_eq_true, comesFirst_iff, comesFirst_iff, not_lt, not_lt]
  exact le_total _ _

/-! ## Sorting -/

/-- The places of some items, in the order in which they are listed for a typed text. -/
structure IsRanking (items : List CompletionItem) (typed : List Char)
    (picks : List (Fin items.length)) : Prop where
  once : picks.Nodup
  matching : ∀ i, i ∈ picks ↔ lower typed <:+: lower items[i].label.toList
  ordered : picks.Pairwise fun i j =>
    grades items[j].label.toList typed < grades items[i].label.toList typed ∨
      grades items[j].label.toList typed = grades items[i].label.toList typed ∧ i < j

/-- The places of the items that match. -/
def places (items : List CompletionItem) (typed : List Char) : List (Fin items.length) :=
  (List.finRange items.length).filter fun i => isKept typed items[i].label.toList

/-- Whether a place need not stand behind another. -/
def placedFirst (items : List CompletionItem) (typed : List Char) (i j : Fin items.length) : Bool :=
  comesFirst typed items[i] items[j]

theorem placedFirst_trans (items : List CompletionItem) (typed : List Char)
    (i j k : Fin items.length) : placedFirst items typed i j = true →
      placedFirst items typed j k = true → placedFirst items typed i k = true :=
  comesFirst_trans typed items[i] items[j] items[k]

theorem placedFirst_total (items : List CompletionItem) (typed : List Char)
    (i j : Fin items.length) :
    (placedFirst items typed i j || placedFirst items typed j i) = true :=
  comesFirst_total typed items[i] items[j]

/-- The places of the items that match, sorted. -/
def picks (items : List CompletionItem) (typed : List Char) : List (Fin items.length) :=
  (places items typed).mergeSort (placedFirst items typed)

theorem filter_eq_picks (items : List CompletionItem) (typed : List Char) :
    filter items typed = (picks items typed).map fun i => items[i] := by
  have hitems : (List.finRange items.length).map (fun i => items[i]) = items :=
    List.map_getElem_finRange items
  have hplaces : (places items typed).map (fun i => items[i]) =
      items.filter fun item => isKept typed item.label.toList := by
    conv_rhs => rw [← hitems, List.filter_map]
    rfl
  have hsorted : (picks items typed).map (fun i => items[i]) =
      ((places items typed).map fun i => items[i]).mergeSort (comesFirst typed) :=
    List.map_mergeSort fun _ _ _ _ => rfl
  rw [hsorted, hplaces, filter_eq]

theorem sorted_places (items : List CompletionItem) (typed : List Char) :
    (places items typed).Pairwise (· < ·) :=
  (List.pairwise_lt_finRange _).filter _

/-- Places whose items have the same grades are picked in their order. -/
theorem lt_of_sublist_picks {i j : Fin items.length} (hij : [i, j].Sublist (picks items typed))
    (hsame : grades items[j].label.toList typed = grades items[i].label.toList typed) : i < j := by
  have hstable := Sorting.filter_mergeSort
    (placedFirst_trans items typed) (placedFirst_total items typed)
    (p := fun k => decide (grades items[k].label.toList typed = grades items[i].label.toList typed))
    (fun a b ha hb => by
      rw [decide_eq_true_iff] at ha hb
      rw [placedFirst, comesFirst_iff, ha, hb]
      exact lt_irrefl _)
    (places items typed)
  have hsub := hij.filter fun k =>
    decide (grades items[k].label.toList typed = grades items[i].label.toList typed)
  rw [picks, hstable] at hsub
  simp only [List.filter_cons, decide_true, hsame, if_true, List.filter_nil] at hsub
  exact List.pairwise_iff_forall_sublist.1 ((sorted_places items typed).filter _) hsub

theorem isRanking_picks (items : List CompletionItem) (typed : List Char) :
    IsRanking items typed (picks items typed) where
  once := by
    rw [picks, (List.mergeSort_perm _ _).nodup_iff]
    exact (List.nodup_finRange _).filter _
  matching i := by
    rw [picks, List.mem_mergeSort, places, List.mem_filter, isKept_iff]
    simp
  ordered := by
    have hsorted : (picks items typed).Pairwise fun i j => placedFirst items typed i j = true :=
      List.pairwise_mergeSort (placedFirst_trans items typed) (placedFirst_total items typed) _
    rw [List.pairwise_iff_forall_sublist] at hsorted ⊢
    intro i j hij
    have hle := not_lt.1 (comesFirst_iff.1 (hsorted hij))
    rcases hle.lt_or_eq with hlt | hsame
    · exact .inl hlt
    · exact .inr ⟨hsame, lt_of_sublist_picks hij hsame⟩

theorem mem_filter_iff {item : CompletionItem} : item ∈ filter items typed ↔
    item ∈ items ∧ lower typed <:+: lower item.label.toList := by
  rw [filter_eq, List.mem_mergeSort, List.mem_filter, isKept_iff]

/-- What is listed matches and is sorted, so it is listed again as it is. -/
theorem filter_filter (items : List CompletionItem) (typed : List Char) :
    filter (filter items typed) typed = filter items typed := by
  have hkept : (filter items typed).filter (fun item => isKept typed item.label.toList) =
      filter items typed :=
    List.filter_eq_self.2 fun item hitem => isKept_iff.2 (mem_filter_iff.1 hitem).2
  have hsorted : (filter items typed).Pairwise fun a b => comesFirst typed a b = true := by
    rw [filter_eq]
    exact List.pairwise_mergeSort (comesFirst_trans typed) (comesFirst_total typed) _
  rw [filter_eq (filter items typed), hkept, List.mergeSort_of_pairwise hsorted]

/-- **A stable selection.** What is listed for a typed text are the items whose labels contain it,
letter case aside, each as often as it was received; of two of them the first one has the greater
grades, or the same and was received earlier. Listing that again changes nothing, and a cache lists
again for the text it was asked with what it has listed. -/
theorem filter_ranked (items : List CompletionItem) (typed : List Char) :
    (∃ picks, IsRanking items typed picks ∧
      filter items typed = picks.map fun i => items[i]) ∧
    filter (filter items typed) typed = filter items typed ∧
    ∀ (id : RequestId) (uri : String) (origin : Position) (linePrefix : String)
      (isIncomplete : Bool) (words : WordSet),
      let cache := CompletionCache.ofList id uri origin linePrefix ⟨isIncomplete, items⟩ words
      cache.refilter linePrefix words = cache.filtered :=
  ⟨⟨picks items typed, isRanking_picks items typed, filter_eq_picks items typed⟩,
    filter_filter items typed, fun _ _ _ _ _ _ => rfl⟩

/-! ## Literal matches -/

theorem lower_infix_of_place {before behind : List Char}
    (h : lowerBetween before.reverse typed behind = lower typed) :
    lower typed <:+: lower (before ++ typed ++ behind) := by
  rw [Lowercase.lower_append, h]
  exact List.infix_append _ _ _

/-- **Literal matches.** An item is listed if its label contains the typed text at a place where all
capital sigmas of the text have the forms that they have in it. The typed texts for which every item
is listed whose label contains them are those without an open sigma. -/
theorem literal_kept (typed : List Char) :
    (∀ items, ∀ item ∈ items, ∀ before behind,
      item.label.toList = before ++ typed ++ behind →
      lowerBetween before.reverse typed behind = lower typed → item ∈ filter items typed) ∧
    ((∀ items, ∀ item ∈ items, typed <:+: item.label.toList → item ∈ filter items typed) ↔
      Closed typed) := by
  have hplace : ∀ items, ∀ item ∈ items, ∀ before behind : List Char,
      item.label.toList = before ++ typed ++ behind →
      lowerBetween before.reverse typed behind = lower typed → item ∈ filter items typed := by
    intro items item hitem before behind hlabel hforms
    rw [mem_filter_iff, hlabel]
    exact ⟨hitem, lower_infix_of_place hforms⟩
  refine ⟨hplace, fun h => ?_, fun h items item hitem hinfix => ?_⟩
  · by_contra hopen
    obtain ⟨label, hinfix, hnot⟩ := Lowercase.exists_not_infix hopen
    let item : CompletionItem := { (default : CompletionItem) with label := String.ofList label }
    have hlabel : item.label.toList = label := String.toList_ofList
    have hlisted := h [item] item (by simp) (hlabel.symm ▸ hinfix)
    rw [mem_filter_iff, hlabel] at hlisted
    exact hnot hlisted.2
  · obtain ⟨before, behind, hlabel⟩ := hinfix
    exact hplace items item hitem before behind hlabel.symm
      (Lowercase.lowerBetween_of_closed h before.reverse behind)

/-- An item with this label and nothing else. -/
def labelled (label : String) : CompletionItem :=
  { (default : CompletionItem) with label }

/-- The sigma of the first text has a cased letter behind it and is closed. That of the second is
open, but it ends a word in the label as well. -/
theorem literal_kept_philosopher :
    Closed "ΣΟΦ".toList ∧ "ΣΟΦ".toList <:+: (labelled "ΦΙΛΟΣΟΦΟΣ").label.toList ∧
    labelled "ΦΙΛΟΣΟΦΟΣ" ∈ filter [labelled "ΦΙΛΟΣΟΦΟΣ"] "ΣΟΦ".toList ∧
    lowerBetween "ΦΙΛΟΣΟΦ".toList.reverse "ΟΣ".toList [] = lower "ΟΣ".toList ∧
    labelled "ΦΙΛΟΣΟΦΟΣ" ∈ filter [labelled "ΦΙΛΟΣΟΦΟΣ"] "ΟΣ".toList := by
  have hcased : Lowercase.startsCased ['Ο', 'Φ'] = true := by decide +kernel
  have hclosed : Closed "ΣΟΦ".toList := by
    rintro (_ | ⟨c, u⟩) v h
    · obtain rfl : v = ['Ο', 'Φ'] := by simpa [eq_comm] using h
      rintro (⟨-, hv⟩ | ⟨hu, -⟩)
      · rw [hcased] at hv
        cases hv
      · cases hu
    · have hmem : 'Σ' ∈ ['Ο', 'Φ'] := by
        have htail : ['Ο', 'Φ'] = u ++ 'Σ' :: v := (List.cons.inj h).2
        simp [htail]
      exact absurd hmem (by decide)
  have hinfix : "ΣΟΦ".toList <:+: (labelled "ΦΙΛΟΣΟΦΟΣ").label.toList :=
    ⟨"ΦΙΛΟ".toList, "ΟΣ".toList, rfl⟩
  have hforms : lowerBetween "ΦΙΛΟΣΟΦ".toList.reverse "ΟΣ".toList [] = lower "ΟΣ".toList := by
    decide +kernel
  exact ⟨hclosed, hinfix, (literal_kept _).2.2 hclosed _ _ (by simp) hinfix, hforms,
    (literal_kept _).1 _ _ (by simp) "ΦΙΛΟΣΟΦ".toList [] rfl hforms⟩

/-- A label that ends in a capital sigma does not match the sigma alone: the one has its final form,
the other has not. -/
theorem literal_hidden : "Σ".toList <:+: (labelled "ΛΟΓΟΣ").label.toList ∧
    filter [labelled "ΛΟΓΟΣ"] "Σ".toList = [] := by
  have hkept : isKept "Σ".toList (labelled "ΛΟΓΟΣ").label.toList = false := by decide +kernel
  refine ⟨⟨"ΛΟΓΟ".toList, [], rfl⟩, List.eq_nil_iff_forall_not_mem.2 fun item hitem => ?_⟩
  obtain ⟨hmem, hinfix⟩ := mem_filter_iff.1 hitem
  rw [List.mem_singleton.1 hmem, ← isKept_iff, hkept] at hinfix
  cases hinfix

end LanguageClient.Completion
