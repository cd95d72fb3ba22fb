import LanguageClient.Proofs.Diff.Front

/-!
# The middle lies on a shortest path

The two searches walk the same grid from opposite corners. Column `x` of the
one and column `x'` of the other on the same diagonal overlap if together
they are at least as long as the first sequence; then the steps of both are
enough for a whole path. As long as the searches have not met, the distance
is greater than the steps taken (`search_spec` carries that), so where they
first meet the path is a shortest one.

* `middle?_spec`: sequences at a distance of two or more are cut properly and
  at the cost of a shortest comparison.
-/
namespace LanguageClient.Diff

variable {α : Type} [DecidableEq α] {a b : List α}

/-- The two parts on either side of a point make up a shortest comparison, and both differ. -/
structure IsCut (a b : List α) (x y : Nat) : Prop where
  left : x ≤ a.length
  right : y ≤ b.length
  shortest : dist (a.take x) (b.take y) + dist (a.drop x) (b.drop y) = dist a b
  before : 0 < dist (a.take x) (b.take y)
  after : 0 < dist (a.drop x) (b.drop y)

theorem reach_inside {x y : Nat} (hx : x ≤ a.length) (hy : y ≤ b.length) :
    reach a b x y = dist (a.take x) (b.take y) := by
  unfold reach
  omega

/-- The search from the end measures the distance that is left. -/
theorem reach_reverse {x y : Nat} (hx : x ≤ a.length) (hy : y ≤ b.length) :
    reach a.reverse b.reverse (a.length - x) (b.length - y) = dist (a.drop x) (b.drop y) := by
  rw [reach_inside (by simp) (by simp), List.take_reverse, List.take_reverse, dist_reverse,
    Nat.sub_sub_self hx, Nat.sub_sub_self hy]

/-- A path that leaves one of the sequences behind is longer than one that does not. -/
theorem dist_add_two_le {x y : Nat} (h : a.length < x ∨ b.length < y) :
    dist a b + 2 ≤ reach a b x y + ((a.length : Int) - b.length - (x - y)).natAbs := by
  unfold reach
  rcases Nat.lt_or_ge a.length x with hx | hx
  · rw [List.take_of_length_le (Nat.le_of_lt hx)]
    have hcut := dist_le_cut a b a.length y
    rw [List.take_length, List.drop_length, dist_nil_left, List.length_drop] at hcut
    omega
  · rcases Nat.lt_or_ge b.length y with hy | hy
    · rw [List.take_of_length_le (Nat.le_of_lt hy)]
      have hcut := dist_le_cut a b x b.length
      rw [List.take_length, List.drop_length, dist_nil_right, List.length_drop] at hcut
      omega
    · omega

/-- What is left behind a point that the other search has passed. -/
theorem dist_drop_le {x y e t : Nat} (hx : x ≤ a.length) (hy : y ≤ b.length)
    (ht : Top a.reverse b.reverse e ((a.length : Int) - b.length - (x - y)) t)
    (hm : a.length ≤ x + t) : dist (a.drop x) (b.drop y) ≤ e := by
  rw [← reach_reverse hx hy]
  refine Nat.le_trans (reach_le_of_le (t := t) ?_ ?_) ht.near
  · omega
  · have := ht.inside
    unfold rowOn
    omega

/-! ## Meeting -/

/-- The front that step `d` starts from: that of one step less, if there is one. -/
def Before (a b : List α) (d : Nat) (f : List Nat) : Prop :=
  d = 0 ∧ f = [] ∨ ∃ e, d = e + 1 ∧ OnDiagonals (Top a b e) e f ∧ f.length = e + 1

theorem Before.origins {d : Nat} {f : List Nat} (h : Before a b d f) :
    OnDiagonals (Origin a b d) d (starts f) ∧ (starts f).length = d + 1 := by
  rcases h with ⟨rfl, rfl⟩ | ⟨e, rfl, hf, hl⟩
  · exact ⟨origins_starts_nil, rfl⟩
  · exact ⟨origins_starts hf hl, by rw [length_starts, hl]⟩

/-- The front of step `d` is what step `d + 1` starts from. -/
theorem Before.next {d : Nat} {s : List Nat} (h : OnDiagonals (Origin a b d) d s)
    (hl : s.length = d + 1) : Before a b (d + 1) (columns (front a b d s)) :=
  .inr ⟨d, rfl, tops_front h, by rw [length_columns_front, hl]⟩

/-- Where the equal items of a front end, as much is left as where they start. -/
theorem dist_drop_extend (k : Int) (x : Nat) (hk : k ≤ x) :
    dist (a.drop (extend a b k x)) (b.drop (rowOn k (extend a b k x))) =
      dist (a.drop x) (b.drop (rowOn k x)) := by
  have htake := take_commonPrefix (a.drop x) (b.drop (rowOn k x))
  have hrow : rowOn k (extend a b k x) =
      rowOn k x + commonPrefix (a.drop x) (b.drop (rowOn k x)) := by
    unfold extend rowOn
    omega
  rw [hrow, extend]
  generalize commonPrefix (a.drop x) (b.drop (rowOn k x)) = p at htake ⊢
  have h := dist_append_left ((a.drop x).take p) ((a.drop x).drop p) ((b.drop (rowOn k x)).drop p)
  rw [List.take_append_drop, htake, List.take_append_drop, List.drop_drop, List.drop_drop] at h
  exact h.symm

/-- Where the search from the start meets the other, nothing shorter being possible, is a cut. -/
theorem meetForward?_sound {d : Nat} {s other : List Nat} {x y : Nat}
    (hs : OnDiagonals (Origin a b d) d s) (ho : Before a.reverse b.reverse d other)
    (hodd : ((a.length : Int) - b.length) % 2 ≠ 0) (hfar : 2 * d ≤ dist a b + 1)
    (hdiff : 2 ≤ dist a b)
    (h : meetForward? a.length ((a.length : Int) - b.length) d (front a b d s) other =
      some (x, y)) : IsCut a b x y := by
  obtain ⟨⟨k, x₀, t⟩, hfound, hxy⟩ := Option.map_eq_some_iff.1 h
  cases hxy
  have hcond := List.find?_some hfound
  simp only [decide_eq_true_eq] at hcond
  obtain ⟨hnear, hmeet⟩ := hcond
  obtain ⟨horigin, rfl, i, -, hk⟩ := mem_front hs (List.mem_of_find?_eq_some hfound)
  have htop := horigin.top
  -- In its first step the search has nothing to meet.
  obtain ⟨e, rfl, hother, hl⟩ : ∃ e, d = e + 1 ∧ OnDiagonals (Top a.reverse b.reverse e) e other ∧
      other.length = e + 1 := by
    rcases ho with ⟨rfl, -⟩ | ho
    · omega
    · exact ho
  have hlens := (dist_lengths a b).2.2.2
  have hdiag : (extend a b k x : Int) - rowOn k (extend a b k x) = k := by
    have := htop.inside
    unfold rowOn
    omega
  have hback := top_columnOn hother hl (j := (a.length : Int) - b.length - k) (by omega) (by omega)
  have hinside : extend a b k x ≤ a.length ∧ rowOn k (extend a b k x) ≤ b.length := by
    refine Decidable.byContradiction fun hout => ?_
    have := dist_add_two_le (a := a) (b := b) (x := extend a b k x)
      (y := rowOn k (extend a b k x)) (by omega)
    have := htop.near
    omega
  have hdrop := dist_drop_le (e := e) hinside.1 hinside.2 (by rw [hdiag]; exact hback) hmeet
  rw [dist_drop_extend k x horigin.inside] at hdrop
  have hx : x ≤ a.length := Nat.le_trans (Nat.le_add_right ..) hinside.1
  have hy : rowOn k x ≤ b.length := by
    refine Nat.le_trans ?_ hinside.2
    unfold rowOn extend
    omega
  have htake := horigin.near
  rw [reach_inside hx hy] at htake
  have hcut := dist_le_cut a b x (rowOn k x)
  exact ⟨hx, hy, by omega, by omega, by omega⟩

/-- At the distance that step `d` can bridge, the search from the start does meet the other. -/
theorem meetForward?_complete {d : Nat} {s other : List Nat}
    (hs : OnDiagonals (Origin a b d) d s) (hl : s.length = d + 1)
    (ho : Before a.reverse b.reverse d other) (hd : dist a b + 1 = 2 * d) :
    meetForward? a.length ((a.length : Int) - b.length) d (front a b d s) other ≠ none := by
  obtain ⟨x, y, hx, hy, htake, hdrop⟩ := exists_cut a b (t := d) (by omega)
  obtain ⟨e, rfl, hother, hlo⟩ : ∃ e, d = e + 1 ∧
      OnDiagonals (Top a.reverse b.reverse e) e other ∧ other.length = e + 1 := by
    rcases ho with ⟨rfl, -⟩ | ho
    · omega
    · exact ho
  have hcut := dist_le_cut a b x y
  have hltake := dist_lengths (a.take x) (b.take y)
  have hldrop := dist_lengths (a.drop x) (b.drop y)
  simp only [List.length_take, List.length_drop] at hltake hldrop
  -- The front has an entry on the diagonal of the cut, which is at least as far.
  obtain ⟨x₀, t, hm⟩ := exists_mem_front (a := a) (b := b) (k := (e + 1 : Nat)) (s := s)
    (i := (((e + 1 : Nat) - ((x : Int) - y)) / 2).toNat) (by omega)
  rw [show ((e + 1 : Nat) : Int) - 2 * ((((e + 1 : Nat) - ((x : Int) - y)) / 2).toNat : Nat) =
    (x : Int) - y by omega] at hm
  obtain ⟨horigin, ht, -⟩ := mem_front hs hm
  have hxt : x ≤ t := by
    rw [ht]
    exact horigin.top.le_of_reach (by rw [reach_inside hx hy]; exact htake) rfl
  have hback := top_columnOn hother hlo (j := (a.length : Int) - b.length - ((x : Int) - y))
    (by omega) (by omega)
  have hxt' : a.length - x ≤ columnOn e other ((a.length : Int) - b.length - ((x : Int) - y)) := by
    refine hback.le_of_reach (y := b.length - y) ?_ (by omega)
    rw [reach_reverse hx hy]
    omega
  intro hnone
  have hfind := List.find?_eq_none.1 (Option.map_eq_none_iff.1 hnone) _ hm
  simp only [decide_eq_true_eq] at hfind
  exact hfind ⟨by omega, by rw [Nat.add_sub_cancel]; omega⟩

/-- Where the search from the end meets the other, nothing shorter being possible, is a cut. -/
theorem meetBackward?_sound {d : Nat} {s other : List Nat} {x y : Nat}
    (hs : OnDiagonals (Origin a.reverse b.reverse d) d s)
    (ho : OnDiagonals (Top a b d) d other) (hl : other.length = d + 1)
    (heven : ((a.length : Int) - b.length) % 2 = 0) (hfar : 2 * d ≤ dist a b)
    (hdiff : 2 ≤ dist a b)
    (h : meetBackward? a.length b.length ((a.length : Int) - b.length) d
      (front a.reverse b.reverse d s) other = some (x, y)) : IsCut a b x y := by
  obtain ⟨⟨k, x₀, t⟩, hfound, hxy⟩ := Option.map_eq_some_iff.1 h
  cases hxy
  have hcond := List.find?_some hfound
  simp only [decide_eq_true_eq] at hcond
  obtain ⟨hnear, hmeet⟩ := hcond
  obtain ⟨horigin, rfl, i, -, hk⟩ := mem_front hs (List.mem_of_find?_eq_some hfound)
  have htop := horigin.top
  generalize extend a.reverse b.reverse k x₀ = t at htop hmeet ⊢
  have hdiag : (t : Int) - rowOn k t = k := by
    have := htop.inside
    unfold rowOn
    omega
  have hinside : t ≤ a.length ∧ rowOn k t ≤ b.length := by
    refine Decidable.byContradiction fun hout => ?_
    have hlong := dist_add_two_le (a := a.reverse) (b := b.reverse) (x := t) (y := rowOn k t)
      (by simp only [List.length_reverse]; omega)
    rw [dist_reverse, List.length_reverse, List.length_reverse] at hlong
    have := htop.near
    omega
  have hx : a.length - t ≤ a.length := Nat.sub_le ..
  have hy : b.length - rowOn k t ≤ b.length := Nat.sub_le ..
  have hdrop : dist (a.drop (a.length - t)) (b.drop (b.length - rowOn k t)) ≤ d := by
    rw [← reach_reverse hx hy, Nat.sub_sub_self hinside.1, Nat.sub_sub_self hinside.2]
    exact htop.near
  have hforth := top_columnOn ho hl (j := (a.length : Int) - b.length - k) (by omega) (by omega)
  have htake : dist (a.take (a.length - t)) (b.take (b.length - rowOn k t)) ≤ d := by
    rw [← reach_inside hx hy]
    refine Nat.le_trans (reach_le_of_le (Nat.sub_le_iff_le_add'.2 hmeet) ?_) hforth.near
    have := hforth.inside
    generalize columnOn d other ((a.length : Int) - b.length - k) = u at hmeet this ⊢
    unfold rowOn at *
    omega
  have hcut := dist_le_cut a b (a.length - t) (b.length - rowOn k t)
  exact ⟨hx, hy, by omega, by omega, by omega⟩

/-- At the distance that step `d` can bridge, the search from the end does meet the other. -/
theorem meetBackward?_complete {d : Nat} {s other : List Nat}
    (hs : OnDiagonals (Origin a.reverse b.reverse d) d s) (hl : s.length = d + 1)
    (ho : OnDiagonals (Top a b d) d other) (hlo : other.length = d + 1)
    (hd : dist a b = 2 * d) :
    meetBackward? a.length b.length ((a.length : Int) - b.length) d
      (front a.reverse b.reverse d s) other ≠ none := by
  obtain ⟨x, y, hx, hy, htake, hdrop⟩ := exists_cut a b (t := d) (by omega)
  have hcut := dist_le_cut a b x y
  have hltake := dist_lengths (a.take x) (b.take y)
  have hldrop := dist_lengths (a.drop x) (b.drop y)
  simp only [List.length_take, List.length_drop] at hltake hldrop
  -- The front has an entry on the diagonal of the cut, which is at least as far.
  obtain ⟨x₀, t, hm⟩ := exists_mem_front (a := a.reverse) (b := b.reverse) (k := d) (s := s)
    (i := (((d : Int) - ((a.length : Int) - b.length - ((x : Int) - y))) / 2).toNat) (by omega)
  rw [show (d : Int) - 2 * ((((d : Int) - ((a.length : Int) - b.length - ((x : Int) - y))) /
    2).toNat : Nat) = (a.length : Int) - b.length - ((x : Int) - y) by omega] at hm
  obtain ⟨horigin, ht, -⟩ := mem_front hs hm
  have hxt : a.length - x ≤ t := by
    rw [ht]
    refine horigin.top.le_of_reach (y := b.length - y) ?_ (by omega)
    rw [reach_reverse hx hy]
    omega
  have hforth := top_columnOn ho hlo (j := (x : Int) - y) (by omega) (by omega)
  have hxt' : x ≤ columnOn d other ((x : Int) - y) :=
    hforth.le_of_reach (by rw [reach_inside hx hy]; exact htake) rfl
  intro hnone
  have hfind := List.find?_eq_none.1 (Option.map_eq_none_iff.1 hnone) _ hm
  simp only [decide_eq_true_eq, Int.sub_sub_self] at hfind
  exact hfind ⟨by omega, by omega⟩

/-! ## The search -/

/-- From a step that the distance still allows on, with enough steps left, the search finds a
cut. -/
theorem search_spec (hdiff : 2 ≤ dist a b) (steps : Nat) :
    ∀ {d : Nat} {forward backward : List Nat}, Before a b d forward →
      Before a.reverse b.reverse d backward → 2 * d ≤ dist a b + 1 →
      dist a b + 2 ≤ 2 * (d + steps) →
      ∃ x y, search a b ((a.length : Int) - b.length) steps d forward backward = some (x, y) ∧
        IsCut a b x y := by
  have hlens := (dist_lengths a b).2.2.2
  induction steps with
  | zero => intro d _ _ _ _ _ _; omega
  | succ steps ih =>
    intro d forward backward hf hb hfar hsteps
    obtain ⟨hfo, hfl⟩ := hf.origins
    obtain ⟨hbo, hbl⟩ := hb.origins
    have hft := tops_front hfo
    have hftl := length_columns_front (a := a) (b := b) d (starts forward)
    unfold search
    by_cases hodd : ((a.length : Int) - b.length) % 2 = 0
    · simp only [hodd, ne_eq, not_true_eq_false, if_false, if_true]
      cases hm : meetBackward? a.length b.length ((a.length : Int) - b.length) d
          (front a.reverse b.reverse d (starts backward))
          (columns (front a b d (starts forward))) with
      | some p => exact ⟨p.1, p.2, rfl, meetBackward?_sound hbo hft (hftl.trans hfl) hodd
          (by omega) hdiff hm⟩
      | none =>
        have hne : dist a b ≠ 2 * d := fun he =>
          meetBackward?_complete hbo hbl hft (hftl.trans hfl) he hm
        exact ih (.next hfo hfl) (.next hbo hbl) (by omega) (by omega)
    · simp only [hodd, ne_eq, not_false_eq_true, if_true, if_false]
      cases hm : meetForward? a.length ((a.length : Int) - b.length) d
          (front a b d (starts forward)) backward with
      | some p => exact ⟨p.1, p.2, rfl, meetForward?_sound hfo hb hodd hfar hdiff hm⟩
      | none =>
        have hne : dist a b + 1 ≠ 2 * d := fun he => meetForward?_complete hfo hfl hb he hm
        exact ih (.next hfo hfl) (.next hbo hbl) (by omega) (by omega)

/-- **The middle.** Sequences that two edits or more lie between are cut in two at a point that a
shortest comparison passes, with edits on both sides of it. -/
theorem middle?_spec (h : 2 ≤ dist a b) : ∃ x y, middle? a b = some (x, y) ∧ IsCut a b x y := by
  have hlens := (dist_lengths a b).2.2.1
  exact search_spec h _ (.inl ⟨rfl, rfl⟩) (.inl ⟨rfl, rfl⟩) (by omega) (by omega)

end LanguageClient.Diff
