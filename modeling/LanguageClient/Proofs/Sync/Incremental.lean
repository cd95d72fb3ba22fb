import LanguageClient.Proofs.Sync.Blocks

/-!
# When changes are sent as ranges

Applied one after another, events in their places give the new text. A
deletion that is recorded elsewhere takes out the wrong lines, and nothing
that follows makes up for it: of the old lines that should have gone, one
stays where the new text has another.

* `changes_incremental`: without carriage returns, a change is sent as one
  event for each block exactly if every deletion is recorded in its place.
* `changes_stale`: it is not always.
-/
namespace LanguageClient.Sync

open Diff
open Line (Ends Open Lined lined_append)
open ChangeEvent (applyTo? applyAll?)

/-- An event for each block that is not equal lines. -/
def blockEvents (a b : List (List Char)) (bs : List Block) : List ChangeEvent :=
  (bs.filter fun x => x.kind ≠ .equal).map (blockEvent a b)

variable {a b P : List (List Char)} {o n : Nat} {x : Block} {bs : List Block}
  {events : List ChangeEvent} {changed : Bool} {d : List Char}

theorem blockEvents_cons_equal (hk : x.kind = .equal) (bs : List Block) :
    blockEvents a b (x :: bs) = blockEvents a b bs := by
  simp [blockEvents, hk]

theorem blockEvents_cons_change (hk : x.kind ≠ .equal) (bs : List Block) :
    blockEvents a b (x :: bs) = blockEvent a b x :: blockEvents a b bs := by
  simp [blockEvents, hk]

/-- A line and a block behind it can be numbered. -/
theorem Numbered.lt (hnum : Numbered a b) (hr : Remains a b changed o n bs) :
    n < 2 ^ 32 := by
  have hlines := hnum.lines
  have hn := hr.new
  omega

/-! ## In place -/

theorem foldl_inPlace (hr : Remains a b changed o n bs) (hp : InPlace n bs)
    (hnum : Numbered a b) (hb : Behind (n + changed.toNat) events) :
    bs.foldl (addBlock a b) events = (blockEvents a b bs).reverse ++ events := by
  induction bs generalizing changed o n events with
  | nil => rfl
  | cons x bs ih =>
    have ⟨hx, hj, _⟩ := hr.merged
    rw [List.foldl_cons]
    by_cases hk : x.kind = .equal
    · rw [addBlock_equal hk, blockEvents_cons_equal hk]
      exact ih hr.tail hp.2 (hb.equal hj hk)
    · obtain rfl := hx hk
      have hat := hj.newStart hp.1
      rw [addBlock_of_behind hk hb (Nat.le_of_eq hat.symm) (hnum.lt hr),
        blockEvents_cons_change hk, List.reverse_cons, List.append_assoc]
      exact ih hr.tail hp.2 (behind_change hk (Nat.le_of_eq hat))

/-- Events in their places bring the new text. -/
theorem applyAll?_blockEvents (h : Reached a b o n P) (hr : Remains a b changed o n bs)
    (hp : InPlace n bs) (hnum : Numbered a b) :
    applyAll? (document a o P) (blockEvents a b bs) = some (P ++ b.drop n).flatten := by
  induction bs generalizing changed o n P with
  | nil =>
    have ho := hr.old
    have hn := hr.new
    simp only [oldTotal_nil, newTotal_nil, Nat.add_zero] at ho hn
    simp [blockEvents, applyAll?, document, ho, hn]
  | cons x bs ih =>
    obtain ⟨hx, hj, -⟩ := hr.merged
    have hrest : P ++ b.drop n = P ++ stretch b n x.newLength ++ b.drop (n + x.newLength) := by
      rw [List.append_assoc, stretch_append_drop]
    rw [hrest]
    by_cases hk : x.kind = .equal
    · obtain ⟨hreached, hdoc⟩ := h.equal hr hk
      rw [blockEvents_cons_equal hk, ← hdoc]
      exact ih hreached hr.tail hp.2
    · obtain rfl := hx hk
      rw [blockEvents_cons_change hk, applyAll?,
        applyTo?_blockEvent h hr hnum hk (hj.newStart hp.1)]
      exact ih (h.change hr hk) hr.tail hp.2

/-! ## Out of place -/

theorem applyAll?_singleton (d : List Char) (e : ChangeEvent) :
    applyAll? d [e] = applyTo? d e := by
  simp only [applyAll?]
  cases applyTo? d e <;> rfl

theorem applyAll?_reverse_cons (e : ChangeEvent) :
    applyAll? d (e :: events).reverse = (applyAll? d events.reverse).bind (applyTo? · e) := by
  rw [List.reverse_cons, ChangeEvent.applyAll?_append]
  simp only [applyAll?_singleton]

/-- A text that keeps lines has them where it had them. -/
theorem getElem?_of_keeps {t : List Char} {l : List Char} (hb : Lined b)
    (hends : ∀ m ∈ P ++ [l], Ends m) (h : b.flatten = (P ++ [l]).flatten ++ t) :
    b[P.length]? = some l := by
  obtain ⟨ms, rfl, -⟩ := Line.prefix_of_flatten hends hb h
  simp

/-- A deletion recorded behind its place leaves its first line. -/
theorem not_updated_of_later (h : Reached a b o n P) (hr : Remains a b false o n (x :: bs))
    (hs : (deletions (x :: bs)).Pairwise (· ≤ ·)) (hnum : Numbered a b) (hlined : Lined b)
    (hk : x.kind = .delete) (hlt : n < x.newStart) (hb : Behind n events)
    (hd : applyAll? d events.reverse = some (document a o P)) :
    applyAll? d ((x :: bs).foldl (addBlock a b) events).reverse ≠ some b.flatten := by
  have hne : x.kind ≠ .equal := by simp [hk]
  obtain ⟨hxo, hxn, hxl, hapart⟩ := hr.merged.2.1.deleted hk
  have ho := hr.old
  have hn := hr.new
  have hlines := hnum.lines
  rw [oldTotal_cons] at ho
  have hends := h.ends hr (by rw [oldTotal_cons]; omega)
  -- The line that stays, and the events, all of which start behind it.
  obtain ⟨l, rest, hl⟩ : ∃ l rest, a.drop o = l :: rest :=
    List.exists_cons_of_ne_nil fun hd => by rw [List.drop_eq_nil_iff] at hd; omega
  have hmem : l ∈ x.oldItems a := by
    obtain ⟨k, hkl⟩ : ∃ k, x.oldLength = k + 1 := ⟨x.oldLength - 1, by omega⟩
    rw [Block.oldItems, hxo, hl, hkl]
    exact List.mem_cons_self ..
  have htail := hr.tail
  rw [decide_eq_true hne, hxn] at htail
  have hbs := htail.merged.le_newStart (m := n + 1) (Nat.le_refl _) fun s hmem => by
    rw [deletions_cons_delete hk, List.pairwise_cons] at hs
    exact Nat.le_trans hlt (hs.1 s hmem)
  have hfirst : ∀ e ∈ [blockEvent a b x], e.StartsFrom (n + 1) := by
    simpa using blockEvent_startsFrom hlt (by omega)
  obtain ⟨es, hes, hfrom, hlen⟩ := foldl_addBlock (a := a) (b := b) (by omega) hbs _ events hfirst
    fun h => by cases h
  rw [List.foldl_cons, addBlock_of_behind hne hb (by omega) (hnum.lt hr)]
  intro hall
  rw [← List.singleton_append, hes, List.reverse_append, ChangeEvent.applyAll?_append, hd,
    Option.bind_some, document, hl] at hall
  have hfrom' : ∀ e ∈ es.reverse, e.StartsFrom (P ++ [l]).length := by
    simpa [h.length] using hfrom
  by_cases hle : Ends l
  · have hends' : ∀ m ∈ P ++ [l], Ends m := by
      simpa [or_imp, forall_and] using ⟨hends, hle⟩
    have hsplit : P.flatten ++ (l :: rest).flatten = (P ++ [l]).flatten ++ rest.flatten := by simp
    rw [hsplit] at hall
    obtain ⟨t, ht⟩ := ChangeEvent.applyAll?_keeps hends' hfrom' hall
    have hline := getElem?_of_keeps hlined hends' ht
    rw [h.length] at hline
    exact hapart n (by omega) (by omega) l hmem hline
  · -- Then nothing ends the line, and there is no place behind it.
    have hlast := h.old.of_append
    rw [hl] at hlast
    cases hlast with
    | cons hl' _ => exact hle hl'
    | last hopen =>
      cases hrev : es.reverse with
      | nil => simp [List.reverse_eq_nil_iff.1 hrev] at hlen
      | cons e es' =>
        have he := hfrom e (List.mem_reverse.1 (hrev ▸ List.mem_cons_self ..))
        rw [← h.length] at he
        simp [hrev, applyAll?, ChangeEvent.applyTo?_behind hends hopen he] at hall

/-- What is left of the lines when a deletion takes out those from `s` on. -/
def without (P ls : List (List Char)) (s : Nat) : List (List Char) :=
  (P ++ ls).take s ++ (P ++ ls).drop (s + ls.length)

theorem ends_without {ls : List (List Char)} (hP : ∀ l ∈ P, Ends l) (hls : ∀ l ∈ ls, Ends l)
    (s : Nat) : ∀ l ∈ without P ls s, Ends l := by
  intro l hl
  exact Line.ends_append hP hls l
    ((List.mem_append.1 hl).elim List.mem_of_mem_take List.mem_of_mem_drop)

theorem getLast?_without {ls : List (List Char)} {s : Nat} (hs : s < P.length) (hne : ls ≠ []) :
    (without P ls s).getLast? = ls.getLast? := by
  have hlen : s + ls.length < (P ++ ls).length := by
    rw [List.length_append]
    omega
  rw [without, List.getLast?_append, List.getLast?_drop, if_neg (by omega),
    List.getLast?_append, List.getLast?_eq_some_getLast hne]
  rfl

/-- A deletion recorded before its place moves the lines behind up to its own. -/
theorem applyTo?_earlier (h : Reached a b o n P) (hr : Remains a b false o n (x :: bs))
    (hnum : Numbered a b) (hlined : Lined b) (hk : x.kind = .delete) (hlt : x.newStart < n)
    (hP : ∀ l ∈ P, Ends l) (hends : ∀ l ∈ x.oldItems a, Ends l) :
    Reached a b (o + x.oldLength) n (without P (x.oldItems a) x.newStart) ∧
      applyTo? (document a o P) (blockEvent a b x) =
        some (document a (o + x.oldLength) (without P (x.oldItems a) x.newStart)) := by
  have hj := hr.merged.2.1
  have hitems := hj.oldItems
  have hpos := (hj.deleted hk).2.2.1
  have ho := hr.old
  have hn := hr.new
  have hl := h.length
  have hlines := hnum.lines
  rw [oldTotal_cons] at ho
  have hlen : (x.oldItems a).length = x.oldLength := by
    rw [hitems, length_stretch (by omega)]
  have hsplit : a.drop o = x.oldItems a ++ a.drop (o + x.oldLength) := by
    rw [hitems, stretch_append_drop]
  have hevent : blockEvent a b x = .ranged (removedRange (x.oldItems a) x.newStart) "" := by
    simp [blockEvent, hk]
  rw [hevent]
  generalize x.oldItems a = ls at hends hlen hsplit
  have hwithout := ends_without hP hends x.newStart
  refine ⟨⟨?_, ?_, ?_⟩, ?_⟩
  · simp only [without, List.length_append, List.length_take, List.length_drop]
    omega
  · rw [lined_append hwithout, ← List.drop_drop]
    exact h.old.of_append.drop _
  · rw [lined_append hwithout]
    exact hlined.drop _
  · obtain ⟨hstart, hstop⟩ := removedRange_ends (s := x.newStart)
      (List.ne_nil_of_length_pos (hlen ▸ hpos)) hends (by omega)
    have hcut := ChangeEvent.splice?_lines (Line.ends_append hP hends) hstart hstop
      (Nat.le_add_right ..) (by rw [List.length_append]; omega) []
      (a.drop (o + x.oldLength)).flatten
    rw [document, hsplit, List.flatten_append, ← List.append_assoc, ← List.flatten_append]
    simpa [ChangeEvent.ranged, applyTo?, document, without] using hcut

/-- A deletion recorded before its place leaves its last line. -/
theorem not_updated_of_earlier (h : Reached a b o n P) (hr : Remains a b false o n (x :: bs))
    (hp : InPlace n bs) (hnum : Numbered a b) (hlined : Lined b)
    (hk : x.kind = .delete) (hlt : x.newStart < n) (hP : ∀ l ∈ P, Ends l)
    (hends : ∀ l ∈ x.oldItems a, Ends l)
    (hd : applyAll? d events.reverse = some (document a o P)) :
    applyAll? d (bs.foldl (addBlock a b) (blockEvent a b x :: events)).reverse ≠
      some b.flatten := by
  have hne : x.kind ≠ .equal := by simp [hk]
  obtain ⟨hreached, happly⟩ := applyTo?_earlier h hr hnum hlined hk hlt hP hends
  obtain ⟨-, hxn, hxl, hapart⟩ := hr.merged.2.1.deleted hk
  have htail := hr.tail
  rw [decide_eq_true hne, hxn] at htail
  have hbs := htail.merged.le_newStart (Nat.le_add_right ..) (sorted_of_inPlace hp).1
  obtain ⟨es, hes, hfrom, -⟩ := foldl_addBlock (a := a) (b := b) (hnum.lt hr) hbs []
    (blockEvent a b x :: events) (by simp) fun _ => behind_blockEvent hlt
  intro hall
  rw [← List.nil_append (_ :: _), hes, List.reverse_append, ChangeEvent.applyAll?_append,
    applyAll?_reverse_cons, hd, Option.bind_some, happly, Option.bind_some] at hall
  -- The line that stays is the last of those before the place of the deletion.
  have hne' : x.oldItems a ≠ [] := by
    have ho := hr.old
    rw [oldTotal_cons] at ho
    rw [← List.length_pos_iff, hr.merged.2.1.oldItems, length_stretch (by omega)]
    exact hxl
  have hlast := getLast?_without (P := P) (h.length ▸ hlt) hne'
  rw [List.getLast?_eq_some_getLast hne'] at hlast
  obtain ⟨Q, hQ⟩ := List.getLast?_eq_some_iff.1 hlast
  have hlen := hreached.length
  have hwithout := ends_without hP hends x.newStart
  rw [hQ] at hlen hwithout hall
  obtain ⟨t, ht⟩ := ChangeEvent.applyAll?_keeps hwithout
    (by simpa [hlen] using hfrom) hall
  have hline := getElem?_of_keeps hlined hwithout ht
  rw [List.length_append, List.length_singleton] at hlen
  exact hapart _ (by omega) (by omega) _ (List.getLast_mem hne') hline

/-- A deletion up to an unended last line, recorded before its place, leaves a line too many. -/
theorem not_updated_of_open {T : List (List Char)} {l : List Char} (h : Reached a b o n P)
    (hr : Remains a b false o n (x :: bs)) (hnum : Numbered a b) (hlined : Lined b)
    (hk : x.kind = .delete) (hlt : x.newStart < n) (hP : ∀ l ∈ P, Ends l)
    (hitems : x.oldItems a = T ++ [l]) (hT : ∀ l ∈ T, Ends l) (hl : Open l)
    (hd : applyAll? d events.reverse = some (document a o P)) :
    applyAll? d (bs.foldl (addBlock a b) (blockEvent a b x :: events)).reverse ≠
      some b.flatten := by
  have hne : x.kind ≠ .equal := by simp [hk]
  have hj := hr.merged.2.1
  have hsplit : a.drop o = T ++ [l] ++ a.drop (o + x.oldLength) := by
    rw [← hitems, hj.oldItems, stretch_append_drop]
  have hxn := (hj.deleted hk).2.1
  have hold := h.old.of_append
  rw [hsplit] at hold
  -- Nothing follows the last line, neither lines nor blocks.
  have hrest : a.drop (o + x.oldLength) = [] := Decidable.byContradiction fun hrest =>
    hl.not_ends (hold.ends_of_append hrest l (by simp))
  have htail := hr.tail
  rw [decide_eq_true hne, hxn] at htail
  obtain rfl : bs = [] := htail.nil_or.resolve_right fun hlt => by
    rw [List.drop_eq_nil_iff] at hrest
    omega
  have hn := htail.new
  have ho := htail.old
  have hlines := hnum.lines
  simp only [newTotal_nil, oldTotal_nil, Nat.add_zero] at hn ho
  have hlen := h.length
  have hTlen : T.length + 1 ≤ a.length := by
    have := congrArg List.length hsplit
    simp only [List.length_drop, List.length_append, List.length_singleton] at this
    omega
  obtain ⟨hstart, hstop, -⟩ := removedRange_open T x.newStart hl (by omega)
    (hnum.columns l (List.mem_of_mem_drop (i := o) (by rw [hsplit]; simp)))
  intro hall
  rw [List.foldl_nil, applyAll?_reverse_cons, hd, Option.bind_some] at hall
  have hdoc : document a o P = (P ++ T).flatten ++ l := by
    rw [document, hsplit, hrest]
    simp
  have hevent : blockEvent a b x = .ranged (removedRange (T ++ [l]) x.newStart) "" := by
    simp [blockEvent, hk, hitems]
  rw [hevent, hdoc] at hall
  obtain ⟨Q, hQ, hcount, hflat⟩ := ChangeEvent.splice?_within (Line.ends_append hP hT) hstart
    (Nat.le_add_right ..) (by rw [List.length_append]; omega) hstop hall
  obtain ⟨ms, rfl, hms⟩ := Line.prefix_of_flatten hQ hlined hflat
  rw [List.length_append] at hcount hn
  obtain rfl : ms = [] := List.length_eq_zero_iff.1 (by omega)
  exact hl.1 hms.symm

/-- Unless all deletions are recorded in their places, the events do not give the new text. Up to
the first one recorded behind its place, or else up to the last one, the document keeps the shape
of one under way, with other lines perhaps than those of the new text. -/
theorem not_updated (h : Reached a b o n P) (hr : Remains a b changed o n bs)
    (hs : (deletions bs).Pairwise (· ≤ ·)) (hp : ¬InPlace n bs) (hnum : Numbered a b)
    (hlined : Lined b) (hb : Behind (n + changed.toNat) events)
    (hd : applyAll? d events.reverse = some (document a o P)) :
    applyAll? d (bs.foldl (addBlock a b) events).reverse ≠ some b.flatten := by
  induction bs generalizing changed o n P events with
  | nil => exact absurd trivial hp
  | cons x bs ih =>
    have ⟨hx, hj, _⟩ := hr.merged
    by_cases hk : x.kind = .equal
    · obtain ⟨hreached, hdoc⟩ := h.equal hr hk
      rw [deletions_cons_of_ne (by simp [hk])] at hs
      rw [List.foldl_cons, addBlock_equal hk]
      exact ih hreached hr.tail hs (fun hp' => hp ⟨by simp [hk], hp'⟩) (hb.equal hj hk) (hdoc ▸ hd)
    obtain rfl := hx hk
    have hs' : (deletions bs).Pairwise (· ≤ ·) := by
      by_cases hkd : x.kind = .delete
      · rw [deletions_cons_delete hkd] at hs
        exact hs.of_cons
      · rwa [deletions_cons_of_ne hkd] at hs
    by_cases hat : x.kind = .delete → x.newStart = n
    · have hstart := hj.newStart hat
      rw [List.foldl_cons, addBlock_of_behind hk hb (Nat.le_of_eq hstart.symm) (hnum.lt hr)]
      refine ih (h.change hr hk) hr.tail hs' (fun hp' => hp ⟨hat, hp'⟩)
        (behind_change hk (Nat.le_of_eq hstart)) ?_
      rw [applyAll?_reverse_cons, hd, Option.bind_some, applyTo?_blockEvent h hr hnum hk hstart]
    · obtain ⟨hkd, hne⟩ := Classical.not_imp.1 hat
      rcases Nat.lt_or_gt_of_ne hne with hlt | hlt
      · have hadd : addBlock a b events x = blockEvent a b x :: events := by
          simp [addBlock, blockEvent, hkd]
        rw [List.foldl_cons, hadd]
        have hpos := hj.pos
        have hP := h.ends hr (by rw [oldTotal_cons, newTotal_cons]; omega)
        have hlines := h.old.of_append
        rw [← stretch_append_drop a o x.oldLength, ← hj.oldItems] at hlines
        by_cases hends : ∀ l ∈ x.oldItems a, Ends l
        · by_cases hp' : InPlace n bs
          · exact not_updated_of_earlier h hr hp' hnum hlined hkd hlt hP hends hd
          · obtain ⟨hreached, happly⟩ := applyTo?_earlier h hr hnum hlined hkd hlt hP hends
            have htail := hr.tail
            rw [(hj.deleted hkd).2.1, Nat.add_zero] at htail
            refine ih hreached htail hs' hp' (behind_blockEvent (Nat.lt_add_right _ hlt)) ?_
            rw [applyAll?_reverse_cons, hd, Option.bind_some, happly]
        · have hrest : a.drop (o + x.oldLength) = [] := Decidable.byContradiction fun hrest =>
            hends (hlines.ends_of_append hrest)
          rw [hrest, List.append_nil] at hlines
          rcases hlines.ends_or with hall | ⟨T, l, hitems, hT, hl⟩
          · exact absurd hall hends
          · exact not_updated_of_open h hr hnum hlined hkd hlt hP hitems hT hl hd
      · exact not_updated_of_later h hr hs hnum hlined hkd hlt hb hd

/-! ## A whole change -/

theorem lineChanges_of_inPlace (hnum : Numbered a b) (hp : InPlace 0 (blocks a b)) :
    lineChanges a b = blockEvents a b (blocks a b) := by
  have hr := (blocks_remains a b).1
  rw [lineChanges, foldl_inPlace hr hp hnum (by simp [Behind]), List.append_nil,
    List.reverse_reverse]

/-- The events of a comparison give the new lines exactly if its deletions are in their places. -/
theorem applyAll?_lineChanges (ha : Lined a) (hb : Lined b) (hnum : Numbered a b) :
    applyAll? a.flatten (lineChanges a b) = some b.flatten ↔ InPlace 0 (blocks a b) := by
  obtain ⟨hr, hs⟩ := blocks_remains a b
  have hreached : Reached a b 0 0 [] := ⟨rfl, ha, hb⟩
  have hstart : document a 0 [] = a.flatten := by simp [document]
  constructor
  · intro hall
    refine Decidable.byContradiction fun hp => ?_
    exact not_updated hreached hr hs hp hnum hb (by simp [Behind])
      (by rw [hstart]; rfl) hall
  · intro hp
    rw [lineChanges_of_inPlace hnum hp, ← hstart, applyAll?_blockEvents hreached hr hp hnum]
    simp

/-- **Incremental changes.** Without carriage returns, a change is sent as one event for each block
that is not equal lines exactly if every deletion is recorded at the line of the new text it lies
before; otherwise the whole text is sent. -/
theorem changes_incremental {old new : String} (hne : old ≠ new) (hold : '\r' ∉ old.toList)
    (hnew : '\r' ∉ new.toList)
    (hnum : Numbered (Line.split old.toList) (Line.split new.toList)) :
    changes .incremental old new =
      let a := Line.split old.toList
      let b := Line.split new.toList
      if InPlace 0 (blocks a b) then blockEvents a b (blocks a b) else [.full new] := by
  have hiff := applyAll?_lineChanges (Line.lined_split hold) (Line.lined_split hnew) hnum
  rw [Line.flatten_split, Line.flatten_split] at hiff
  rw [changes, if_neg hne]
  simp only [incrementalChanges, hiff]
  by_cases hp : InPlace 0 (blocks (Line.split old.toList) (Line.split new.toList))
  · rw [if_pos hp, if_pos hp, lineChanges_of_inPlace hnum hp]
  · rw [if_neg hp, if_neg hp]

theorem changes_incremental_line : "a\nb\nc\n" ≠ "a\nX\nc\n" ∧
    changes .incremental "a\nb\nc\n" "a\nX\nc\n" =
      [.ranged ⟨⟨1, 0⟩, ⟨2, 0⟩⟩ "X\n"] := by
  refine ⟨by decide, ?_⟩
  rw [changes_incremental (by decide) (by decide) (by decide)
    ⟨by decide +kernel, by decide +kernel⟩]
  decide +kernel

/-- A deletion may be recorded elsewhere: what was inserted before it has been slid past it. -/
theorem changes_stale : "b\na\n" ≠ "a\na\n" ∧ '\r' ∉ "b\na\n".toList ∧
    '\r' ∉ "a\na\n".toList ∧
    changes .incremental "b\na\n" "a\na\n" = [.full "a\na\n"] := by
  decide +kernel

end LanguageClient.Sync
