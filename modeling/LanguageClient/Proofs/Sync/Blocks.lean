import LanguageClient.Sync
import LanguageClient.Proofs.Diff.Merge
import LanguageClient.Proofs.Text.Splice

/-!
# Blocks as events

A change event for a block of a comparison of lines, put where the block is
recorded (`blockEvent`), and what it does to a document that consists of
lines already brought up to date and of the old lines not looked at yet.

* `applyTo?_blockEvent`: in its place it brings its own lines up to date.
* `foldl_addBlock`: events start where their blocks are recorded.
-/
namespace LanguageClient.Sync

open Diff
open Line (Ends Open Lined lined_append)

/-- The event of a block, put where the block is recorded. -/
def blockEvent (a b : List (List Char)) (x : Block) : ChangeEvent :=
  match x.kind with
  | .insert => .ranged (.point ⟨lineNumber x.newStart, 0⟩) (String.ofList (x.newItems b).flatten)
  | .delete => .ranged (removedRange (x.oldItems a) x.newStart) ""
  | _ =>
    .ranged (removedRange (x.oldItems a) x.newStart) (String.ofList (x.newItems b).flatten)

/-- The lines of two texts can be numbered, and the columns of the old one. -/
structure Numbered (a b : List (List Char)) : Prop where
  lines : a.length + b.length < 2 ^ 32
  columns : ∀ l ∈ a, Utf16.length l < 2 ^ 32

/-! ## Numbers -/

theorem lineNumber_toNat (n : Nat) : (lineNumber n).toNat = min n 0xFFFFFFFF := by
  unfold lineNumber
  rw [UInt32.toNat_ofNat']
  omega

theorem starts_lineNumber {n : Nat} (h : n < 2 ^ 32) : (⟨lineNumber n, 0⟩ : Position).Starts n :=
  ⟨by rw [lineNumber_toNat]; omega, rfl⟩

variable {a b c ls : List (List Char)} {o n s : Nat} {x : Block}

/-- The range of ended lines. -/
theorem removedRange_ends (hne : ls ≠ []) (h : ∀ l ∈ ls, Ends l) (hs : s + ls.length < 2 ^ 32) :
    (removedRange ls s).start.Starts s ∧ (removedRange ls s).stop.Starts (s + ls.length) := by
  have hlast : ls.getLast?.getD [] ∈ ls := by
    rw [List.getLast?_eq_some_getLast hne]
    exact List.getLast_mem hne
  refine ⟨starts_lineNumber (by omega), ?_⟩
  simp only [removedRange, Line.isTerminated_of_ends (h _ hlast), if_true]
  exact starts_lineNumber hs

/-- The range of lines the last of which nothing ends. -/
theorem removedRange_open (ls : List (List Char)) (s : Nat) {l : List Char} (h : Open l)
    (hs : s + ls.length < 2 ^ 32) (hl : Utf16.length l < 2 ^ 32) :
    (removedRange (ls ++ [l]) s).start.Starts s ∧
      (removedRange (ls ++ [l]) s).stop.line.toNat = s + ls.length ∧
      (removedRange (ls ++ [l]) s).stop.character.toNat = Utf16.length l := by
  refine ⟨starts_lineNumber (by omega), ?_⟩
  simp only [removedRange, List.getLast?_append, List.getLast?_singleton, Option.some_or,
    Option.getD_some, Line.isTerminated_of_open h, Bool.false_eq_true, if_false,
    List.length_append, List.length_singleton]
  rw [lineNumber_toNat, UInt32.toNat_ofNat']
  omega

/-! ## A document under way -/

/-- Lines already brought up to date, as many as `n`, which fit the old lines from `o` on as well
as the new ones from `n` on. -/
structure Reached (a b : List (List Char)) (o n : Nat) (P : List (List Char)) : Prop where
  length : P.length = n
  old : Lined (P ++ a.drop o)
  new : Lined (P ++ b.drop n)

/-- The document then. -/
def document (a : List (List Char)) (o : Nat) (P : List (List Char)) : List Char :=
  P.flatten ++ (a.drop o).flatten

variable {P : List (List Char)}

/-- Where something is left, all lines before it are ended. -/
theorem Reached.ends {changed : Bool} {bs : List Block} (h : Reached a b o n P)
    (hr : Remains a b changed o n bs) (hbs : 0 < oldTotal bs + newTotal bs) :
    ∀ l ∈ P, Ends l := by
  have ho := hr.old
  have hn := hr.new
  by_cases hd : a.drop o = []
  · refine h.new.ends_of_append fun hd' => ?_
    rw [List.drop_eq_nil_iff] at hd hd'
    omega
  · exact h.old.ends_of_append hd

/-- The lines a block brings are as many as it says. -/
theorem length_new {changed : Bool} {bs : List Block} (h : Reached a b o n P)
    (hr : Remains a b changed o n (x :: bs)) :
    (P ++ stretch b n x.newLength).length = n + x.newLength := by
  have hn := hr.new
  rw [newTotal_cons] at hn
  rw [List.length_append, h.length, length_stretch (by omega)]

/-- Equal lines need no event. -/
theorem Reached.equal {changed : Bool} {bs : List Block} (h : Reached a b o n P)
    (hr : Remains a b changed o n (x :: bs)) (hk : x.kind = .equal) :
    Reached a b (o + x.oldLength) (n + x.newLength) (P ++ stretch b n x.newLength) ∧
      document a (o + x.oldLength) (P ++ stretch b n x.newLength) = document a o P := by
  have hj := hr.merged.2.1.fits hk
  have hl := length_new h hr
  obtain ⟨k, rfl⟩ := exists_equal hk hj
  have hitems : stretch a o k = stretch b n k := ((fits_equal rfl).1 hj).2.2.2.1
  simp only [oldLength_equal, newLength_equal] at hl ⊢
  refine ⟨⟨hl, ?_, ?_⟩, ?_⟩
  · rw [← hitems, List.append_assoc, stretch_append_drop]
    exact h.old
  · rw [List.append_assoc, stretch_append_drop]
    exact h.new
  · rw [document, document, ← hitems, List.flatten_append, List.append_assoc, ← List.flatten_append,
      stretch_append_drop]

/-- Lines behind others are replaced. -/
theorem splice?_removed {rest : List (List Char)} (hP : ∀ l ∈ P, Ends l) (hne : ls ≠ [])
    (hlined : Lined (ls ++ rest)) (hlines : P.length + ls.length < 2 ^ 32)
    (hcolumns : ∀ l ∈ ls, Utf16.length l < 2 ^ 32) (text : List Char) :
    ChangeEvent.splice? (P.flatten ++ (ls ++ rest).flatten) (removedRange ls P.length) text =
      some (P.flatten ++ text ++ rest.flatten) := by
  by_cases hls : ∀ l ∈ ls, Ends l
  · obtain ⟨hstart, hstop⟩ := removedRange_ends hne hls hlines
    have hcut := ChangeEvent.splice?_lines (Line.ends_append hP hls) hstart hstop
      (Nat.le_add_right ..) (by simp) text rest.flatten
    rw [List.take_left, ← List.length_append, List.drop_length] at hcut
    simpa using hcut
  · -- The last line is the last one of all.
    have hrest : rest = [] := Decidable.byContradiction fun hrest =>
      hls (hlined.ends_of_append hrest)
    subst hrest
    rw [List.append_nil] at hlined ⊢
    rcases hlined.ends_or with h | ⟨ms, l, rfl, hms, hl⟩
    · exact absurd h hls
    · rw [List.length_append, List.length_singleton] at hlines
      obtain ⟨hstart, hline, hc⟩ := removedRange_open ms P.length hl (by omega)
        (hcolumns l (by simp))
      have hcut := ChangeEvent.splice?_tail (Line.ends_append hP hms) hl hstart
        (by simpa using hline) hc (by simp) text
      simpa using hcut

/-- A change in its place brings its lines up to date. -/
theorem applyTo?_blockEvent {bs : List Block} (h : Reached a b o n P)
    (hr : Remains a b false o n (x :: bs)) (hnum : Numbered a b) (hk : x.kind ≠ .equal)
    (hx : x.newStart = n) :
    (blockEvent a b x).applyTo? (document a o P) =
      some (document a (o + x.oldLength) (P ++ stretch b n x.newLength)) := by
  have hj := hr.merged.2.1
  have hpos := hj.pos
  have ho := hr.old
  have hn := hr.new
  have hl := h.length
  have hlines := hnum.lines
  rw [oldTotal_cons] at ho
  rw [newTotal_cons] at hn
  have hends := h.ends hr (by rw [oldTotal_cons, newTotal_cons]; omega)
  have hremoved : 0 < x.oldLength → ∀ text,
      ChangeEvent.splice? (document a o P) (removedRange (x.oldItems a) x.newStart) text =
        some (P.flatten ++ text ++ (a.drop (o + x.oldLength)).flatten) := by
    intro hpos text
    have hlength := length_stretch (c := a) (i := o) (n := x.oldLength) (by omega)
    rw [document, ← stretch_append_drop a o x.oldLength, hj.oldItems, hx, ← hl]
    refine splice?_removed hends ?_ ?_ (by omega) ?_ text
    · rw [← List.length_pos_iff, hlength]
      exact hpos
    · rw [stretch_append_drop]
      exact h.old.of_append
    · intro l hl
      exact hnum.columns l (List.mem_of_mem_drop (List.mem_of_mem_take hl))
  cases hxk : x.kind with
  | equal => exact absurd hxk hk
  | delete =>
    obtain ⟨-, hnl, hol, -⟩ := hj.deleted hxk
    simp only [blockEvent, hxk, ChangeEvent.ranged, ChangeEvent.applyTo?, hremoved hol, hnl]
    simp [document, stretch]
  | insert =>
    obtain ⟨-, hol, -⟩ := hj.inserted hxk
    have hat : (⟨lineNumber x.newStart, 0⟩ : Position).Starts n := hx ▸ starts_lineNumber (by omega)
    have hcut := ChangeEvent.splice?_lines (r := .point ⟨lineNumber x.newStart, 0⟩) hends hat hat
      (Nat.le_refl n) (by omega) (stretch b n x.newLength).flatten (a.drop o).flatten
    rw [← hl, List.take_length, List.drop_length, hl] at hcut
    simp only [blockEvent, hxk, ChangeEvent.ranged, ChangeEvent.applyTo?, hj.newItems,
      String.toList_ofList]
    simpa [document, hol] using hcut
  | replace =>
    have hol := (hj.replaced hxk).2.2.1
    simp only [blockEvent, hxk, ChangeEvent.ranged, ChangeEvent.applyTo?, hremoved hol,
      hj.newItems, String.toList_ofList]
    simp [document]

theorem Reached.change {bs : List Block} (h : Reached a b o n P)
    (hr : Remains a b false o n (x :: bs)) (hk : x.kind ≠ .equal) :
    Reached a b (o + x.oldLength) (n + x.newLength) (P ++ stretch b n x.newLength) := by
  have hnew : Lined (P ++ stretch b n x.newLength ++ b.drop (n + x.newLength)) := by
    rw [List.append_assoc, stretch_append_drop]
    exact h.new
  have htail := hr.tail
  rw [decide_eq_true hk] at htail
  refine ⟨length_new h hr, ?_, hnew⟩
  rcases htail.nil_or with rfl | ⟨-, hlt⟩
  · have ho := htail.old
    have hn := htail.new
    simp only [oldTotal_nil, newTotal_nil, Nat.add_zero] at ho hn
    rw [ho, List.drop_length, List.append_nil]
    rwa [hn, List.drop_length, List.append_nil] at hnew
  · -- More new lines follow, so the last line before them is ended.
    have hends := hnew.ends_of_append fun hd => by
      rw [List.drop_eq_nil_iff] at hd
      omega
    rw [lined_append hends, ← List.drop_drop]
    exact h.old.of_append.drop _

/-! ## Events of several blocks -/

/-- Events, given last first, of which the last starts before line `n`. -/
def Behind (n : Nat) (events : List ChangeEvent) : Prop :=
  ∀ e ∈ events.head?, ∀ r, e.range = some r → r.start.line.toNat < n

theorem Behind.mono {m : Nat} {events : List ChangeEvent} (h : Behind n events) (hle : n ≤ m) :
    Behind m events :=
  fun e he r hr => Nat.lt_of_lt_of_le (h e he r hr) hle

theorem blockEvent_range (a b : List (List Char)) (x : Block) :
    ∃ r, (blockEvent a b x).range = some r ∧ r.start = ⟨lineNumber x.newStart, 0⟩ := by
  unfold blockEvent
  split <;> exact ⟨_, rfl, rfl⟩

theorem blockEvent_startsFrom (hle : n ≤ x.newStart) (hn : n < 2 ^ 32) :
    (blockEvent a b x).StartsFrom n := by
  obtain ⟨r, hr, hstart⟩ := blockEvent_range a b x
  refine ⟨r, hr, ?_⟩
  rw [hstart, lineNumber_toNat]
  omega

theorem behind_blockEvent {events : List ChangeEvent} (hlt : x.newStart < n) :
    Behind n (blockEvent a b x :: events) := by
  rintro _ ⟨⟩ r hr
  obtain ⟨r', hr', hstart⟩ := blockEvent_range a b x
  obtain rfl := Option.some.inj (hr.symm.trans hr')
  rw [hstart, lineNumber_toNat]
  omega

/-- What is behind of the next block if a block is equal lines. -/
theorem Behind.equal {changed : Bool} {events : List ChangeEvent}
    (h : Behind (n + changed.toNat) events) (hj : Joins a b o n x) (hk : x.kind = .equal) :
    Behind (n + x.newLength + (decide (x.kind ≠ .equal)).toNat) events := by
  refine h.mono ?_
  have hl := ((fits_equal hk).1 (hj.fits hk)).2.2
  have := Bool.toNat_le changed
  omega

/-- What is behind of the next block if a block is a change. -/
theorem behind_change {events : List ChangeEvent} (hk : x.kind ≠ .equal) (hle : x.newStart ≤ n) :
    Behind (n + x.newLength + (decide (x.kind ≠ .equal)).toNat)
      (blockEvent a b x :: events) := by
  refine behind_blockEvent ?_
  rw [decide_eq_true hk, Bool.toNat_true]
  omega

theorem addBlock_equal {events : List ChangeEvent} (hk : x.kind = .equal) :
    addBlock a b events x = events := by
  simp [addBlock, hk]

/-- The events before a block keep their texts, for none of them starts where it does. -/
theorem addBlock_of_behind {events : List ChangeEvent} (hk : x.kind ≠ .equal)
    (hb : Behind n events) (hle : n ≤ x.newStart) (hn : n < 2 ^ 32) :
    addBlock a b events x = blockEvent a b x :: events := by
  unfold addBlock blockEvent
  cases hxk : x.kind with
  | equal => exact absurd hxk hk
  | delete => rfl
  | replace => rfl
  | insert =>
    cases events with
    | nil => rfl
    | cons e events =>
      simp only [addInsertion]
      refine if_neg fun ⟨_, hr⟩ => ?_
      obtain ⟨r, hr, hstart⟩ := Option.map_eq_some_iff.1 hr
      have hlt := hb e rfl r hr
      rw [hstart, lineNumber_toNat] at hlt
      omega

/-- The event of a block starts where the block is recorded, even if an earlier one takes its
text. -/
theorem addBlock_from {events more : List ChangeEvent} (hk : x.kind ≠ .equal) (hn : n < 2 ^ 32)
    (hle : n ≤ x.newStart) (hmore : ∀ e ∈ more, e.StartsFrom n) (hb : more = [] → Behind n events) :
    ∃ m ms, addBlock a b (more ++ events) x = m :: ms ++ events ∧
      (∀ e ∈ m :: ms, e.StartsFrom n) ∧ more.length ≤ (m :: ms).length := by
  have hx := blockEvent_startsFrom (a := a) (b := b) hle hn
  cases more with
  | nil =>
    refine ⟨blockEvent a b x, [], addBlock_of_behind hk (hb rfl) hle hn, ?_, Nat.zero_le _⟩
    simpa using hx
  | cons e more =>
    have hcons : ∀ e' ∈ blockEvent a b x :: e :: more, e'.StartsFrom n := by
      intro e' he'
      rcases List.mem_cons.1 he' with rfl | he'
      · exact hx
      · exact hmore e' he'
    unfold addBlock
    unfold blockEvent at hcons
    cases hxk : x.kind with
    | equal => exact absurd hxk hk
    | delete =>
      rw [hxk] at hcons
      exact ⟨_, _, rfl, hcons, Nat.le_succ _⟩
    | replace =>
      rw [hxk] at hcons
      exact ⟨_, _, rfl, hcons, Nat.le_succ _⟩
    | insert =>
      rw [hxk] at hcons
      simp only [List.cons_append, addInsertion]
      split
      · refine ⟨_, _, rfl, ?_, Nat.le_refl _⟩
        intro e' he'
        rcases List.mem_cons.1 he' with rfl | he'
        · exact hmore e (List.mem_cons_self ..)
        · exact hmore e' (List.mem_cons_of_mem _ he')
      · exact ⟨_, _, rfl, hcons, Nat.le_succ _⟩

/-- The events of blocks that are recorded at line `n` or behind it start there, behind events that
start before it and keep their texts. -/
theorem foldl_addBlock {bs : List Block} (hn : n < 2 ^ 32)
    (hbs : ∀ x ∈ bs, x.kind ≠ .equal → n ≤ x.newStart) (more events : List ChangeEvent)
    (hmore : ∀ e ∈ more, e.StartsFrom n) (hb : more = [] → Behind n events) :
    ∃ es, bs.foldl (addBlock a b) (more ++ events) = es ++ events ∧
      (∀ e ∈ es, e.StartsFrom n) ∧ more.length ≤ es.length := by
  induction bs generalizing more with
  | nil => exact ⟨more, rfl, hmore, Nat.le_refl _⟩
  | cons x bs ih =>
    have ih := ih fun y hy => hbs y (List.mem_cons_of_mem _ hy)
    rw [List.foldl_cons]
    by_cases hk : x.kind = .equal
    · rw [addBlock_equal hk]
      exact ih more hmore hb
    · obtain ⟨m, ms, hadd, hms, hlen⟩ :=
        addBlock_from hk hn (hbs x (List.mem_cons_self ..) hk) hmore hb
      obtain ⟨es, hes, hfrom, hlen'⟩ := ih (m :: ms) hms fun h => by cases h
      exact ⟨es, hadd ▸ hes, hfrom, Nat.le_trans hlen hlen'⟩

end LanguageClient.Sync
