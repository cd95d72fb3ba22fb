import LanguageClient.Diagnostic.Store
import LanguageClient.Proofs.Sorting
import Mathlib.Data.UInt

/-!
# Diagnostics summed up by line

`Diagnostic.byLine` sums up the diagnostics of a document for a gutter. What it
reads off them is, for each line, which diagnostics of each severity there are
and in which order these came (`Diagnostic.part`). Nothing of this is lost, and
nothing else counts: how the diagnostics of different lines and severities came
in between each other does not show.

* `isGrouping_addToLine`, `isGrouping_groups`: the diagnostics of each line.
* `mergeSort_eq_ranked`: those of one line, severity by severity.
* `byLine_lossless`: the summary of any diagnostics, and which lists of them
  have the same.
-/
namespace LanguageClient

namespace Diagnostic

/-- The severities, the most severe first; what has none comes last. -/
def severities : List (Option Severity) :=
  [some .error, some .warning, some .information, some .hint, none]

/-- The diagnostics of a line, as they came. -/
def onLine (ds : List Diagnostic) (line : UInt32) : List Diagnostic :=
  ds.filter fun d => d.line = line

/-- The diagnostics of a line that have a severity, as they came. -/
def part (ds : List Diagnostic) (line : UInt32) (severity : Option Severity) : List Diagnostic :=
  ds.filter fun d => d.line = line ∧ d.severity = severity

/-- The diagnostics of a line, the most severe first, and those of one severity as they came. -/
def ranked (ds : List Diagnostic) (line : UInt32) : List Diagnostic :=
  severities.flatMap (part ds line)

variable {ds : List Diagnostic} {line : UInt32}

/-! ## The diagnostics of each line -/

/-- The lines are in order, and with each are the diagnostics of it, of which there are some. -/
structure IsGrouping (ds : List Diagnostic) (lines : List (UInt32 × List Diagnostic)) : Prop where
  sorted : (lines.map Prod.fst).Pairwise (· < ·)
  exact : ∀ line group, (line, group) ∈ lines ↔ group ≠ [] ∧ group = onLine ds line

/-- Adding a diagnostic puts it behind those of its line, or alone on a new line. -/
theorem mem_addToLine {d : Diagnostic} {lines : List (UInt32 × List Diagnostic)}
    (h : (lines.map Prod.fst).Pairwise (· < ·)) {group : List Diagnostic} :
    (line, group) ∈ addToLine d lines ↔
      (line ≠ d.line ∧ (line, group) ∈ lines) ∨
        line = d.line ∧ ((∃ before, (line, before) ∈ lines ∧ group = before ++ [d]) ∨
          (line ∉ lines.map Prod.fst ∧ group = [d])) := by
  induction lines with
  | nil => simp [addToLine, Prod.ext_iff]
  | cons entry rest ih =>
    obtain ⟨first, members⟩ := entry
    simp only [List.map_cons, List.pairwise_cons] at h
    obtain ⟨hfirst, hrest⟩ := h
    unfold addToLine
    -- the line of the diagnostic comes before the first one, is the first one, or comes later
    split
    · grind
    · split
      · grind
      · grind

theorem map_fst_addToLine (d : Diagnostic) (lines : List (UInt32 × List Diagnostic)) (x : UInt32) :
    x ∈ (addToLine d lines).map Prod.fst ↔ x = d.line ∨ x ∈ lines.map Prod.fst := by
  induction lines with
  | nil => simp [addToLine]
  | cons entry rest ih =>
    obtain ⟨first, members⟩ := entry
    unfold addToLine
    split
    · simp
    · split
      · rename_i he
        simp [he]
      · simp only [List.map_cons, List.mem_cons, ih]
        tauto

theorem sorted_addToLine (d : Diagnostic) {lines : List (UInt32 × List Diagnostic)}
    (h : (lines.map Prod.fst).Pairwise (· < ·)) :
    ((addToLine d lines).map Prod.fst).Pairwise (· < ·) := by
  induction lines with
  | nil => simp [addToLine]
  | cons entry rest ih =>
    obtain ⟨first, members⟩ := entry
    have hall := h
    simp only [List.map_cons, List.pairwise_cons] at h
    unfold addToLine
    split
    · rename_i hlt
      refine List.pairwise_cons.2 ⟨fun x hx => ?_, hall⟩
      rcases List.mem_cons.1 hx with rfl | hx
      · exact hlt
      · exact UInt32.lt_trans hlt (h.1 x hx)
    · split
      · exact hall
      · rename_i hge hne
        refine List.pairwise_cons.2 ⟨fun x hx => ?_, ih h.2⟩
        rcases (map_fst_addToLine d rest x).1 hx with rfl | hx
        · exact UInt32.lt_of_le_of_ne (UInt32.not_lt.1 hge) (Ne.symm hne)
        · exact h.1 x hx

theorem IsGrouping.mem_lines {lines : List (UInt32 × List Diagnostic)} (h : IsGrouping ds lines) :
    line ∈ lines.map Prod.fst ↔ onLine ds line ≠ [] := by
  constructor
  · intro hl
    obtain ⟨⟨_, group⟩, hg, rfl⟩ := List.mem_map.1 hl
    obtain ⟨hne, rfl⟩ := (h.exact _ group).1 hg
    exact hne
  · exact fun hne => List.mem_map.2 ⟨_, (h.exact line _).2 ⟨hne, rfl⟩, rfl⟩

theorem onLine_concat (ds : List Diagnostic) (d : Diagnostic) (line : UInt32) :
    onLine (ds ++ [d]) line = if line = d.line then onLine ds line ++ [d] else onLine ds line := by
  by_cases h : d.line = line <;> simp [onLine, h, eq_comm (a := line)]

/-- **A step.** One more diagnostic goes to those of its line. -/
theorem isGrouping_addToLine {lines : List (UInt32 × List Diagnostic)} (h : IsGrouping ds lines)
    (d : Diagnostic) : IsGrouping (ds ++ [d]) (addToLine d lines) where
  sorted := sorted_addToLine d h.sorted
  exact line group := by
    rw [mem_addToLine h.sorted, onLine_concat, h.mem_lines, not_not]
    by_cases hl : line = d.line
    · subst hl
      simp only [ne_eq, not_true_eq_false, false_and, false_or, true_and, if_true, h.exact]
      constructor
      · rintro (⟨_, ⟨-, rfl⟩, rfl⟩ | ⟨hnone, rfl⟩)
        · simp
        · simp [hnone]
      · rintro ⟨-, rfl⟩
        by_cases hnone : onLine ds d.line = []
        · exact .inr ⟨hnone, by rw [hnone, List.nil_append]⟩
        · exact .inl ⟨_, ⟨hnone, rfl⟩, rfl⟩
    · simp [hl, h.exact]

/-- **A run.** The diagnostics of each line, as they came. -/
theorem isGrouping_groups (ds : List Diagnostic) : IsGrouping ds (groups ds) := by
  induction ds using List.reverseRecOn with
  | nil => exact ⟨List.Pairwise.nil, fun line group => by simp [groups, onLine]⟩
  | append_singleton ds d ih =>
    rw [groups, List.foldl_concat]
    exact isGrouping_addToLine ih d

/-! ## One line -/

def rankOf : Option Severity → Nat
  | some s => s.code
  | none => 255

theorem severityRank_eq (d : Diagnostic) : d.severityRank = rankOf d.severity := by
  unfold severityRank rankOf
  cases d.severity <;> rfl

theorem rankOf_inj {s t : Option Severity} : rankOf s = rankOf t ↔ s = t := by
  rcases s with _ | _ | _ <;> rcases t with _ | _ | _ <;> decide

theorem code_lt_rankOf_none (s : Severity) : s.code < rankOf none := by
  cases s <;> decide

/-- The diagnostics of a line are sorted by putting together those of each severity. -/
theorem mergeSort_eq_ranked (ds : List Diagnostic) (line : UInt32) :
    (onLine ds line).mergeSort (fun a b => a.severityRank ≤ b.severityRank) = ranked ds line := by
  have hkeys : (severities.map rankOf).Pairwise (· < ·) := by decide
  have hmem : ∀ d ∈ onLine ds line, d.severityRank ∈ severities.map rankOf := fun d _ => by
    rw [severityRank_eq]
    refine List.mem_map_of_mem ?_
    rcases d.severity with _ | _ | _ <;> decide
  rw [Sorting.mergeSort_eq_flatMap hkeys hmem, List.flatMap_map, ranked]
  refine List.flatMap_congr fun s _ => ?_
  rw [onLine, List.filter_filter, part]
  refine List.filter_congr fun d _ => ?_
  simp [severityRank_eq, rankOf_inj, and_comm]

theorem ranked_perm (ds : List Diagnostic) (line : UInt32) :
    (ranked ds line).Perm (onLine ds line) := by
  rw [← mergeSort_eq_ranked]
  exact List.mergeSort_perm _ _

/-- A severity is that of the most severe of some diagnostics; it is unset only if it is in all. -/
def IsMostSevere (ds : List Diagnostic) : Option Severity → Prop
  | none => ∀ d ∈ ds, d.severity = none
  | some s => (∃ d ∈ ds, d.severity = some s) ∧
      ∀ d ∈ ds, ∀ t, d.severity = some t → s.code ≤ t.code

/-- The first of the diagnostics of a line is the most severe of them. -/
theorem isMostSevere_head (h : onLine ds line ≠ []) :
    IsMostSevere (onLine ds line) ((ranked ds line).head?.bind severity) := by
  have hmem : ∀ d, d ∈ ranked ds line ↔ d ∈ onLine ds line :=
    fun d => (ranked_perm ds line).mem_iff
  have hsorted : (ranked ds line).Pairwise fun a b => rankOf a.severity ≤ rankOf b.severity := by
    simp only [← mergeSort_eq_ranked, ← severityRank_eq]
    exact Sorting.pairwise_mergeSort_key _
  cases hr : ranked ds line with
  | nil => exact absurd (List.perm_nil.1 (hr ▸ (ranked_perm ds line).symm)) h
  | cons first rest =>
    rw [hr] at hmem hsorted
    have hleast : ∀ d ∈ onLine ds line, rankOf first.severity ≤ rankOf d.severity := by
      intro d hd
      rcases List.mem_cons.1 ((hmem d).2 hd) with rfl | hd
      · exact le_rfl
      · exact (List.pairwise_cons.1 hsorted).1 d hd
    have hfirst := (hmem first).1 List.mem_cons_self
    rw [List.head?_cons, Option.bind_some]
    cases hs : first.severity with
    | none =>
      intro d hd
      have hle := hleast d hd
      cases ht : d.severity with
      | none => rfl
      | some t =>
        rw [hs, ht] at hle
        exact absurd hle (not_le.2 (code_lt_rankOf_none t))
    | some s =>
      refine ⟨⟨first, hfirst, hs⟩, fun d hd t ht => ?_⟩
      have hle := hleast d hd
      rwa [hs, ht] at hle

/-! ## All lines -/

theorem byLine_eq (ds : List Diagnostic) :
    byLine ds = ((groups ds).map Prod.fst).map fun line =>
      ⟨line, (ranked ds line).head?.bind severity,
        "\n".intercalate ((ranked ds line).map gutterText)⟩ := by
  rw [byLine, List.map_map]
  refine List.map_congr_left fun ⟨line, group⟩ hg => ?_
  obtain ⟨-, rfl⟩ := ((isGrouping_groups ds).exact line group).1 hg
  simp only [summarize, mergeSort_eq_ranked, Function.comp_apply]

theorem mem_lines_iff : line ∈ (groups ds).map Prod.fst ↔ ∃ d ∈ ds, d.line = line := by
  rw [(isGrouping_groups ds).mem_lines, onLine]
  simp

theorem mem_lines_iff_ranked : line ∈ (groups ds).map Prod.fst ↔ ranked ds line ≠ [] := by
  rw [(isGrouping_groups ds).mem_lines, ne_eq, ne_eq, not_iff_not]
  exact ⟨fun h => List.perm_nil.1 (h ▸ ranked_perm ds line),
    fun h => List.perm_nil.1 (h ▸ (ranked_perm ds line).symm)⟩

theorem map_line_byLine (ds : List Diagnostic) :
    (byLine ds).map LineDiagnostics.line = (groups ds).map Prod.fst := by
  rw [byLine_eq, List.map_map]
  exact List.map_id _

/-- **A lossless summary.** The lines of a summary are in order, and they are those on which there
are diagnostics. The text of a line is made of each of its diagnostics once, severity by severity
and in each as they came, and its severity is that of the most severe. Diagnostics that agree line
by line and severity by severity have the same summary, in whatever order they came otherwise. -/
theorem byLine_lossless (ds : List Diagnostic) :
    ((byLine ds).map LineDiagnostics.line).Pairwise (· < ·) ∧
    (∀ line, line ∈ (byLine ds).map LineDiagnostics.line ↔ ∃ d ∈ ds, d.line = line) ∧
    (∀ g ∈ byLine ds, (ranked ds g.line).Perm (onLine ds g.line) ∧
      g.text = "\n".intercalate ((ranked ds g.line).map gutterText) ∧
      IsMostSevere (onLine ds g.line) g.severity) ∧
    ∀ ds', (∀ line severity, part ds line severity = part ds' line severity) →
      byLine ds = byLine ds' := by
  refine ⟨?_, fun line => ?_, fun g hg => ?_, fun ds' hparts => ?_⟩
  · rw [map_line_byLine]
    exact (isGrouping_groups ds).sorted
  · rw [map_line_byLine]
    exact mem_lines_iff
  · rw [byLine_eq] at hg
    obtain ⟨line, hline, rfl⟩ := List.mem_map.1 hg
    exact ⟨ranked_perm ds line, rfl,
      isMostSevere_head ((isGrouping_groups ds).mem_lines.1 hline)⟩
  · have hranked : ranked ds = ranked ds' := funext fun line =>
      List.flatMap_congr fun severity _ => hparts line severity
    have hlines : (groups ds).map Prod.fst = (groups ds').map Prod.fst :=
      List.Pairwise.eq_of_mem_iff (isGrouping_groups ds).sorted (isGrouping_groups ds').sorted
        fun line => by
          rw [mem_lines_iff_ranked, mem_lines_iff_ranked, hranked]
    rw [byLine_eq, byLine_eq, hlines, hranked]

/-- A diagnostic at the start of a line. -/
def noted (line : UInt32) (severity : Option Severity) (message : String) : Diagnostic :=
  ⟨⟨⟨line, 0⟩, ⟨line, 1⟩⟩, severity, none, none, message⟩

/-- A remark, an error of another line and a warning behind it. -/
def arrived : List Diagnostic :=
  [noted 1 none "remark", noted 0 (some .error) "mistake", noted 1 (some .warning) "doubt"]

theorem byLine_lossless_reversed :
    (∀ line severity, part arrived line severity = part arrived.reverse line severity) ∧
      byLine arrived = byLine arrived.reverse ∧
      byLine arrived.reverse =
        [⟨0, some .error, "[E]: mistake"⟩, ⟨1, some .warning, "[W]: doubt\nremark"⟩] := by
  have hparts : ∀ line severity,
      part arrived line severity = part arrived.reverse line severity := by
    intro line severity
    simp only [part, arrived, noted, Diagnostic.line, List.reverse_cons, List.reverse_nil,
      List.nil_append, List.cons_append, List.filter_cons, List.filter_nil]
    grind
  exact ⟨hparts, (byLine_lossless arrived).2.2.2 _ hparts, by rw [byLine_eq]; decide +kernel⟩

end Diagnostic

end LanguageClient
