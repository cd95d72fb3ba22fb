import LanguageClient.Diff.Snake
import LanguageClient.Proofs.Diff.Distance

/-!
# Furthest reaching fronts

The search for a middle walks a grid that goes on behind both sequences:
`reach a b x y` is how many steps right or down a path from the corner to
column `x` of row `y` takes at least. It never falls along a diagonal, so on
each diagonal `d` steps reach all points up to a last one (`Top`). A front
starts at points (`Origin`) from which the equal items lead there.

* `origins_starts`: the points at which the next front starts.
* `tops_front`: the points that a front reaches.
-/
namespace LanguageClient.Diff

variable {α : Type} [DecidableEq α]

/-! ## Common items -/

theorem take_commonPrefix (a b : List α) :
    a.take (commonPrefix a b) = b.take (commonPrefix a b) := by
  induction a generalizing b with
  | nil => cases b <;> simp [commonPrefix]
  | cons x a ih =>
    cases b with
    | nil => simp [commonPrefix]
    | cons y b =>
      by_cases h : x = y
      · simp [commonPrefix, h, ih b]
      · simp [commonPrefix, h]

theorem commonPrefix_le (a b : List α) :
    commonPrefix a b ≤ a.length ∧ commonPrefix a b ≤ b.length := by
  induction a generalizing b with
  | nil => cases b <;> simp [commonPrefix]
  | cons x a ih =>
    cases b with
    | nil => simp [commonPrefix]
    | cons y b =>
      have hrest := ih b
      by_cases h : x = y
      · simp only [commonPrefix, h, if_true, List.length_cons]
        omega
      · simp [commonPrefix, h]

/-- Behind what two sequences have in common, they have nothing in common. -/
theorem commonPrefix_drop (a b : List α) :
    commonPrefix (a.drop (commonPrefix a b)) (b.drop (commonPrefix a b)) = 0 := by
  induction a generalizing b with
  | nil => cases b <;> simp [commonPrefix]
  | cons x a ih =>
    cases b with
    | nil => simp [commonPrefix]
    | cons y b =>
      by_cases h : x = y
      · simp [commonPrefix, h, ih b]
      · simp [commonPrefix, h]

/-! ## The grid -/

/-- The least number of steps right or down to column `x` of row `y`, in a grid that goes on behind
both sequences. -/
def reach (a b : List α) (x y : Nat) : Nat :=
  dist (a.take x) (b.take y) + (x - a.length) + (y - b.length)

variable {a b : List α} {x y : Nat}

theorem reach_right : reach a b (x + 1) y ≤ reach a b x y + 1 := by
  unfold reach
  rcases Nat.lt_or_ge x a.length with h | h
  · have := (dist_snoc_left (a.take x) (b.take y) a[x]).2
    rw [List.take_succ_eq_append_getElem h]
    omega
  · rw [List.take_of_length_le h, List.take_of_length_le (Nat.le_succ_of_le h)]
    omega

theorem reach_down : reach a b x (y + 1) ≤ reach a b x y + 1 := by
  unfold reach
  rcases Nat.lt_or_ge y b.length with h | h
  · have := (dist_snoc_right (a.take x) (b.take y) b[y]).2
    rw [List.take_succ_eq_append_getElem h]
    omega
  · rw [List.take_of_length_le h, List.take_of_length_le (Nat.le_succ_of_le h)]
    omega

/-- Along a diagonal nothing comes nearer. -/
theorem reach_le_diagonal : reach a b x y ≤ reach a b (x + 1) (y + 1) := by
  unfold reach
  rcases Nat.lt_or_ge x a.length with hx | hx <;> rcases Nat.lt_or_ge y b.length with hy | hy
  · have := dist_le_snoc_snoc (a.take x) (b.take y) a[x] b[y]
    rw [List.take_succ_eq_append_getElem hx, List.take_succ_eq_append_getElem hy]
    omega
  · have := (dist_snoc_left (a.take x) b a[x]).1
    rw [List.take_succ_eq_append_getElem hx, List.take_of_length_le hy,
      List.take_of_length_le (Nat.le_succ_of_le hy)]
    omega
  · have := (dist_snoc_right a (b.take y) b[y]).1
    rw [List.take_succ_eq_append_getElem hy, List.take_of_length_le hx,
      List.take_of_length_le (Nat.le_succ_of_le hx)]
    omega
  · rw [List.take_of_length_le hx, List.take_of_length_le hy,
      List.take_of_length_le (Nat.le_succ_of_le hx), List.take_of_length_le (Nat.le_succ_of_le hy)]
    omega

theorem reach_le_along (n : Nat) : reach a b x y ≤ reach a b (x + n) (y + n) := by
  induction n with
  | zero => exact Nat.le_refl _
  | succ n ih => exact Nat.le_trans ih reach_le_diagonal

/-- Equal items of both cost nothing. -/
theorem reach_common : reach a b (x + commonPrefix (a.drop x) (b.drop y))
    (y + commonPrefix (a.drop x) (b.drop y)) = reach a b x y := by
  have hle := commonPrefix_le (a.drop x) (b.drop y)
  have htake := take_commonPrefix (a.drop x) (b.drop y)
  simp only [List.length_drop] at hle
  generalize commonPrefix (a.drop x) (b.drop y) = p at hle htake ⊢
  unfold reach
  rw [List.take_add, List.take_add, htake, dist_append_right]
  omega

/-- Where two items differ, the last step to behind them is right or down. -/
theorem succ_le_reach (h : commonPrefix (a.drop x) (b.drop y) = 0) :
    min (reach a b x (y + 1)) (reach a b (x + 1) y) + 1 ≤ reach a b (x + 1) (y + 1) := by
  unfold reach
  rcases Nat.lt_or_ge x a.length with hx | hx
  · rcases Nat.lt_or_ge y b.length with hy | hy
    · have hne : a[x] ≠ b[y] := by
        intro he
        rw [List.drop_eq_getElem_cons hx, List.drop_eq_getElem_cons hy] at h
        simp [commonPrefix, he] at h
      have := succ_le_dist_snoc_snoc (a.take x) (b.take y) hne
      rw [List.take_succ_eq_append_getElem hx, List.take_succ_eq_append_getElem hy]
      omega
    · rw [List.take_of_length_le hy, List.take_of_length_le (Nat.le_succ_of_le hy)]
      omega
  · rw [List.take_of_length_le hx, List.take_of_length_le (Nat.le_succ_of_le hx)]
    omega

theorem diagonal_le_reach : x ≤ y + reach a b x y ∧ y ≤ x + reach a b x y := by
  have := dist_lengths (a.take x) (b.take y)
  simp only [List.length_take] at this
  unfold reach
  omega

/-! ## Fronts -/

/-- `x` is the last column on diagonal `k` that `d` steps reach. -/
structure Top (a b : List α) (d : Nat) (k : Int) (x : Nat) : Prop where
  inside : k ≤ x
  near : reach a b x (rowOn k x) ≤ d
  last : d < reach a b (x + 1) (rowOn k x + 1)

/-- `d` steps reach column `x` on diagonal `k`, and from there only equal items lead on. -/
structure Origin (a b : List α) (d : Nat) (k : Int) (x : Nat) : Prop where
  inside : k ≤ x
  near : reach a b x (rowOn k x) ≤ d
  right : d ≤ reach a b (x + 1) (rowOn k x)
  down : d ≤ reach a b x (rowOn k x + 1)

/-- What holds of each column of a list that goes from diagonal `k` downwards in steps of two. -/
def OnDiagonals (P : Int → Nat → Prop) : Int → List Nat → Prop
  | _, [] => True
  | k, x :: rest => P k x ∧ OnDiagonals P (k - 2) rest

/-- Of two points on a diagonal the further one is reached later. -/
theorem reach_le_of_le {t u : Nat} (h : x ≤ t) (hd : x + u = t + y) :
    reach a b x y ≤ reach a b t u := by
  obtain ⟨n, rfl⟩ := Nat.le.dest h
  obtain rfl : u = y + n := by omega
  exact reach_le_along n

/-- Nothing behind the last column is reached. -/
theorem Top.lt_reach {d : Nat} {k : Int} {t : Nat} (h : Top a b d k t) (hx : t < x)
    (hd : (x : Int) - y = k) : d < reach a b x y := by
  have hk := h.inside
  refine Nat.lt_of_lt_of_le h.last (reach_le_of_le hx ?_)
  unfold rowOn
  omega

/-- All that is reached on a diagonal lies before its last column. -/
theorem Top.le_of_reach {d : Nat} {k : Int} {t : Nat} (h : Top a b d k t)
    (hr : reach a b x y ≤ d) (hd : (x : Int) - y = k) : x ≤ t := by
  rcases Nat.lt_or_ge t x with hx | hx
  · exact absurd (h.lt_reach hx hd) (Nat.not_lt.2 hr)
  · exact hx

/-- A front goes from its origins along the equal items to the last columns. -/
theorem Origin.top {d : Nat} {k : Int} (h : Origin a b d k x) : Top a b d k (extend a b k x) := by
  obtain ⟨hin, hnear, hright, hdown⟩ := h
  unfold extend
  have hdiff := commonPrefix_drop (a.drop x) (b.drop (rowOn k x))
  have hcommon := reach_common (a := a) (b := b) (x := x) (y := rowOn k x)
  generalize commonPrefix (a.drop x) (b.drop (rowOn k x)) = p at hdiff hcommon ⊢
  have hrow : rowOn k (x + p) = rowOn k x + p := by unfold rowOn; omega
  rw [List.drop_drop, List.drop_drop] at hdiff
  have hmin := succ_le_reach hdiff
  have hr := reach_le_along (a := a) (b := b) (x := x + 1) (y := rowOn k x) p
  have hd := reach_le_along (a := a) (b := b) (x := x) (y := rowOn k x + 1) p
  refine ⟨by omega, by rw [hrow, hcommon]; exact hnear, ?_⟩
  rw [Nat.add_right_comm x 1 p] at hr
  rw [Nat.add_right_comm (rowOn k x) 1 p] at hd
  rw [hrow]
  omega

/-! ## One step of the search -/

/-- A step down from the last column of the diagonal above, if the diagonal below does not reach
as far. -/
theorem Top.down {d : Nat} {k : Int} (h : Top a b d (k + 1) x)
    (hlow : d < reach a b x (rowOn k x + 1)) : Origin a b (d + 1) k x := by
  obtain ⟨hin, hnear, hlast⟩ := h
  have hrow : rowOn k x = rowOn (k + 1) x + 1 := by unfold rowOn; omega
  have hstep := reach_down (a := a) (b := b) (x := x) (y := rowOn (k + 1) x)
  rw [← hrow] at hlast hstep
  exact ⟨by omega, by omega, hlast, hlow⟩

/-- A step right from the last column of the diagonal below, if the diagonal above does not reach
further. -/
theorem Top.right {d : Nat} {k : Int} (h : Top a b d (k - 1) x)
    (hup : d < reach a b (x + 2) (rowOn k (x + 1))) : Origin a b (d + 1) k (x + 1) := by
  obtain ⟨hin, hnear, hlast⟩ := h
  have hrow : rowOn k (x + 1) = rowOn (k - 1) x := by unfold rowOn; omega
  have hstep := reach_right (a := a) (b := b) (x := x) (y := rowOn (k - 1) x)
  rw [← hrow] at hlast hstep hnear
  exact ⟨by omega, by omega, hup, hlast⟩

/-- The origins of the next front behind a diagonal whose last column is `x`. -/
theorem origins_startsAfter {d : Nat} {rest : List Nat} {k : Int} {x : Nat}
    (hx : Top a b d k x) (hrest : OnDiagonals (Top a b d) (k - 2) rest)
    (hk : k + d = 2 * rest.length) :
    OnDiagonals (Origin a b (d + 1)) (k - 1) (startsAfter x rest) := by
  induction rest generalizing k x with
  | nil =>
    -- On the lowest diagonal even the point below is too far from the corner.
    have hfar := (diagonal_le_reach (a := a) (b := b) (x := x) (y := rowOn (k - 1) x + 1)).2
    have hrow : (rowOn (k - 1) x : Int) = x - k + 1 := by
      have := hx.inside
      unfold rowOn
      omega
    simp only [List.length_nil] at hk
    exact ⟨Top.down (by rwa [Int.sub_add_cancel]) (by omega), trivial⟩
  | cons y rest ih =>
    obtain ⟨hy, hrest⟩ := hrest
    simp only [List.length_cons] at hk
    have ih' := ih hy hrest (by omega)
    rw [show k - 2 - 1 = k - 1 - 2 by omega] at ih'
    refine ⟨?_, ih'⟩
    have hxin := hx.inside
    have hyin := hy.inside
    split
    · refine Top.down (by rwa [Int.sub_add_cancel]) (hy.lt_reach ‹_› ?_)
      unfold rowOn
      omega
    · refine Top.right (by rwa [show k - 1 - 1 = k - 2 by omega]) (hx.lt_reach (by omega) ?_)
      unfold rowOn
      omega

/-- A front starts a step right or down of the front before. -/
theorem origins_starts {d : Nat} {f : List Nat} (hf : OnDiagonals (Top a b d) d f)
    (hl : f.length = d + 1) : OnDiagonals (Origin a b (d + 1)) (d + 1) (starts f) := by
  cases f with
  | nil => cases hl
  | cons x rest =>
    obtain ⟨hx, hrest⟩ := hf
    simp only [List.length_cons] at hl
    have htail := origins_startsAfter hx hrest (by omega)
    rw [show (d : Int) - 1 = d + 1 - 2 by omega] at htail
    refine ⟨Top.right (by rwa [Int.add_sub_cancel]) ?_, htail⟩
    have hfar := (diagonal_le_reach (a := a) (b := b) (x := x + 2) (y := rowOn (d + 1) (x + 1))).1
    have hxin := hx.inside
    have hrow : (rowOn (d + 1) (x + 1) : Int) = x - d := by unfold rowOn; omega
    omega

/-- The first front starts at the corner. -/
theorem origins_starts_nil : OnDiagonals (Origin a b 0) 0 (starts []) :=
  ⟨⟨Int.le_refl _, by simp [reach, rowOn, dist_self], Nat.zero_le _, Nat.zero_le _⟩, trivial⟩

theorem length_startsAfter (x : Nat) (rest : List Nat) :
    (startsAfter x rest).length = rest.length + 1 := by
  induction rest generalizing x with
  | nil => rfl
  | cons y rest ih => simp [startsAfter, ih]

theorem length_starts (f : List Nat) : (starts f).length = f.length + 1 := by
  cases f with
  | nil => rfl
  | cons x rest => simp [starts, length_startsAfter]

/-- The columns that a front reaches. -/
theorem tops_front {d : Nat} {s : List Nat} {k : Int} (h : OnDiagonals (Origin a b d) k s) :
    OnDiagonals (Top a b d) k (columns (front a b k s)) := by
  induction s generalizing k with
  | nil => trivial
  | cons x rest ih => exact ⟨h.1.top, ih h.2⟩

theorem length_columns_front (k : Int) (s : List Nat) :
    (columns (front a b k s)).length = s.length := by
  induction s generalizing k with
  | nil => rfl
  | cons x rest ih => simpa [columns, front] using ih (k - 2)

/-- Each entry of a front goes from an origin along the equal items. -/
theorem mem_front {d : Nat} {s : List Nat} {k : Int} (h : OnDiagonals (Origin a b d) k s)
    {j : Int} {x t : Nat} (hm : (j, x, t) ∈ front a b k s) :
    Origin a b d j x ∧ t = extend a b j x ∧ ∃ i, i < s.length ∧ j = k - 2 * (i : Nat) := by
  induction s generalizing k with
  | nil => cases hm
  | cons x rest ih =>
    rcases List.mem_cons.1 hm with hm | hm
    · cases hm
      exact ⟨h.1, rfl, 0, by simp, by simp⟩
    · obtain ⟨ho, ht, i, hi, hj⟩ := ih h.2 hm
      exact ⟨ho, ht, i + 1, by simpa using hi, by omega⟩

/-- There is an entry on each diagonal of a front. -/
theorem exists_mem_front {s : List Nat} {k : Int} {i : Nat} (hi : i < s.length) :
    ∃ x t, (k - 2 * i, x, t) ∈ front a b k s := by
  induction s generalizing k i with
  | nil => cases hi
  | cons x rest ih =>
    cases i with
    | zero => exact ⟨x, extend a b k x, by simp [front]⟩
    | succ i =>
      obtain ⟨x', t', hm⟩ := ih (k := k - 2) (Nat.lt_of_succ_lt_succ hi)
      refine ⟨x', t', List.mem_cons_of_mem _ ?_⟩
      rwa [show k - 2 * ((i + 1 : Nat) : Int) = k - 2 - 2 * i by omega]

/-- The column on a diagonal of a front. -/
theorem OnDiagonals.getD {P : Int → Nat → Prop} {f : List Nat} {k : Int} (h : OnDiagonals P k f)
    {i : Nat} (hi : i < f.length) : P (k - 2 * i) (f.getD i 0) := by
  induction f generalizing k i with
  | nil => cases hi
  | cons x rest ih =>
    cases i with
    | zero => simpa using h.1
    | succ i =>
      have := ih h.2 (Nat.lt_of_succ_lt_succ hi)
      rwa [show k - 2 - 2 * (i : Int) = k - 2 * ((i + 1 : Nat) : Int) by omega] at this

/-- The last column on diagonal `j` of the front of `d` steps. -/
theorem top_columnOn {d : Nat} {f : List Nat} (h : OnDiagonals (Top a b d) d f)
    (hl : f.length = d + 1) {j : Int} (hj : j.natAbs ≤ d) (hp : (d - j) % 2 = 0) :
    Top a b d j (columnOn d f j) := by
  have ht := h.getD (i := (((d : Int) - j) / 2).toNat) (by omega)
  rwa [show (d : Int) - 2 * ((((d : Int) - j) / 2).toNat : Int) = j by omega] at ht

end LanguageClient.Diff
