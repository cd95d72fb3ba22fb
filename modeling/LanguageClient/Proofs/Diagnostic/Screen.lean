import LanguageClient.Host
import LanguageClient.Proofs.Keyed
import Mathlib.Data.List.Induction

/-!
# Diagnostics on screen

The diagnostics of a document come and the document is shown, in any order
(`DiagnosticEvent`). What the host has on screen for it are the lines that it
was told of last (`HostCall.screen`). The store must do three things with a
history of events: know the latest diagnostics, know which it holds back, and
tell the host of the others.

* `Follows`: a store knows what a history says. `follows_take` is one event.
* `onScreen`: the diagnostics that a history puts on screen; all but those
  that are held back are on screen (`onScreen_of_not_heldBack`).
* `screen_takeAll`: the calls of a store put exactly these on screen.
-/
namespace LanguageClient

/-- What happens to the diagnostics of a document. -/
inductive DiagnosticEvent where
  /-- Diagnostics come for a document that the host shows at this time or does not. -/
  | published (uri : String) (items : List Diagnostic) (visible : Bool)
  /-- The host comes to show a document. -/
  | shown (uri : String)
  deriving DecidableEq

namespace DiagnosticEvent

def uri : DiagnosticEvent → String
  | published uri _ _ => uri
  | shown uri => uri

/-- The diagnostics that come for a document. -/
def items? (uri : String) : DiagnosticEvent → Option (List Diagnostic)
  | published other items _ => if other = uri then some items else none
  | shown _ => none

/-- All diagnostics that came for a document. -/
def publications (uri : String) (events : List DiagnosticEvent) : List (List Diagnostic) :=
  events.filterMap (items? uri)

/-- The diagnostics that came last for a document. -/
def latest (uri : String) (events : List DiagnosticEvent) : List Diagnostic :=
  (publications uri events).getLast?.getD []

/-- The latest diagnostics of a document came while it was hidden, and it was not shown since. -/
def HeldBack (uri : String) (events : List DiagnosticEvent) : Prop :=
  ∃ before items after, events = before ++ published uri items false :: after ∧
    ∀ e ∈ after, e.uri ≠ uri

/-- The diagnostics that came for a document while it was shown, or before it was shown. -/
def seen (uri : String) : List DiagnosticEvent → List (List Diagnostic)
  | [] => []
  | published other items visible :: rest =>
    if other = uri ∧ (visible = true ∨ shown uri ∈ rest) then items :: seen uri rest
    else seen uri rest
  | shown _ :: rest => seen uri rest

/-- The diagnostics of a document that the host has on screen. -/
def onScreen (uri : String) (events : List DiagnosticEvent) : List Diagnostic :=
  (seen uri events).getLast?.getD []

variable {uri : String} {events : List DiagnosticEvent} {e : DiagnosticEvent}

/-! ## One more event -/

theorem latest_append_published (other : String) (items : List Diagnostic) (visible : Bool) :
    latest uri (events ++ [published other items visible]) =
      if other = uri then items else latest uri events := by
  unfold latest publications
  rw [List.filterMap_append]
  by_cases h : other = uri <;> simp [items?, h]

theorem latest_append_shown (other : String) :
    latest uri (events ++ [shown other]) = latest uri events := by
  simp [latest, publications, items?]

theorem seen_append_published (other : String) (items : List Diagnostic) (visible : Bool) :
    seen uri (events ++ [published other items visible]) =
      if other = uri ∧ visible = true then seen uri events ++ [items] else seen uri events := by
  induction events with
  | nil => by_cases h : other = uri ∧ visible = true <;> simp [seen, h]
  | cons e events ih =>
    cases e with
    | shown other => simpa [seen] using ih
    | published first known shown? =>
      simp only [List.cons_append, seen, ih, List.mem_append, List.mem_singleton, reduceCtorEq,
        or_false]
      split <;> split <;> simp

theorem seen_append_shown (other : String) :
    seen uri (events ++ [shown other]) =
      if other = uri then publications uri events else seen uri events := by
  induction events with
  | nil => simp [seen, publications]
  | cons e events ih =>
    cases e with
    | shown first =>
      rw [List.cons_append, seen, ih, seen, publications, publications,
        List.filterMap_cons_none rfl]
    | published first known visible =>
      simp only [List.cons_append, seen, ih, List.mem_append, List.mem_singleton, shown.injEq]
      by_cases ho : other = uri
      · by_cases hf : first = uri <;> simp [publications, items?, ho, hf]
      · simp [ho, Ne.symm ho]

/-- Only the last event of a document says whether it is held back. -/
theorem heldBack_append :
    HeldBack uri (events ++ [e]) ↔
      (∃ items, e = published uri items false) ∨ (e.uri ≠ uri ∧ HeldBack uri events) := by
  constructor
  · rintro ⟨before, items, after, h, hafter⟩
    rcases List.eq_nil_or_concat' after with rfl | ⟨after, last, rfl⟩
    · obtain ⟨-, hlast⟩ := List.append_inj' h rfl
      exact .inl ⟨items, List.cons.inj hlast |>.1⟩
    · rw [← List.cons_append, ← List.append_assoc] at h
      obtain ⟨hevents, hlast⟩ := List.append_inj' h rfl
      obtain rfl := (List.cons.inj hlast).1
      exact .inr ⟨hafter _ (by simp), before, items, after, hevents,
        fun x hx => hafter x (by simp [hx])⟩
  · rintro (⟨items, rfl⟩ | ⟨he, before, items, after, rfl, hafter⟩)
    · exact ⟨events, items, [], rfl, by simp⟩
    · refine ⟨before, items, after ++ [e], by simp, fun x hx => ?_⟩
      rcases List.mem_append.1 hx with hx | hx
      · exact hafter x hx
      · exact List.mem_singleton.1 hx ▸ he

theorem not_heldBack_nil : ¬HeldBack uri [] := by
  rintro ⟨before, items, after, h, -⟩
  simp at h

/-- What is not held back is on screen. -/
theorem onScreen_of_not_heldBack (h : ¬HeldBack uri events) :
    onScreen uri events = latest uri events := by
  induction events using List.reverseRecOn with
  | nil => rfl
  | append_singleton events e ih =>
    rw [heldBack_append, not_or] at h
    obtain ⟨hlast, hrest⟩ := h
    cases e with
    | shown other =>
      rw [onScreen, seen_append_shown, latest_append_shown]
      split
      · rfl
      · rename_i ho
        exact ih fun hheld => hrest ⟨ho, hheld⟩
    | published other items visible =>
      rw [onScreen, seen_append_published, latest_append_published]
      by_cases ho : other = uri
      · subst ho
        cases visible with
        | true => simp
        | false => exact absurd ⟨items, rfl⟩ hlast
      · rw [if_neg fun hx => ho hx.1, if_neg ho]
        exact ih fun hheld => hrest ⟨ho, hheld⟩

end DiagnosticEvent

/-! ## What the host was told -/

namespace HostCall

/-- The lines of a document that a call is about. -/
def lines? (uri : String) : HostCall → Option (List LineDiagnostics)
  | diagnostics other lines => if other = uri then some lines else none
  | _ => none

/-- All lines of a document that the host was told of. -/
def linesOf (uri : String) (calls : List HostCall) : List (List LineDiagnostics) :=
  calls.filterMap (lines? uri)

/-- The lines of a document that are on screen: those that the host was told of last. -/
def screen (uri : String) (calls : List HostCall) : List LineDiagnostics :=
  (linesOf uri calls).getLast?.getD []

variable {uri : String} {calls more : List HostCall}

@[simp] theorem linesOf_nil : linesOf uri [] = [] := rfl

@[simp] theorem linesOf_append :
    linesOf uri (calls ++ more) = linesOf uri calls ++ linesOf uri more :=
  List.filterMap_append

theorem screen_append :
    screen uri (calls ++ more) = (linesOf uri more).getLast?.getD (screen uri calls) := by
  rw [screen, linesOf_append, List.getLast?_append]
  cases (linesOf uri more).getLast? <;> rfl

theorem screen_append_of_nil (h : linesOf uri more = []) :
    screen uri (calls ++ more) = screen uri calls := by
  rw [screen_append, h]
  rfl

end HostCall

namespace Diagnostic

/-- There are lines as soon as there are diagnostics. -/
theorem byLine_eq_nil_iff {ds : List Diagnostic} : byLine ds = [] ↔ ds = [] := by
  have hadd : ∀ (d : Diagnostic) lines, addToLine d lines ≠ [] := by
    intro d lines
    cases lines with
    | nil => simp [addToLine]
    | cons entry rest =>
      unfold addToLine
      split
      · simp
      split <;> simp
  unfold byLine groups
  rw [List.map_eq_nil_iff]
  induction ds using List.reverseRecOn with
  | nil => simp
  | append_singleton ds d _ => simp [hadd]

end Diagnostic

/-! ## The store -/

namespace DiagnosticStore

open DiagnosticEvent HostCall

/-- A store takes an event in and tells the host of it. -/
def take (s : DiagnosticStore) : DiagnosticEvent → List HostCall × DiagnosticStore
  | .published uri items visible =>
    (if visible then [.diagnostics uri ((s.publish uri items visible).byLine uri)] else [],
      s.publish uri items visible)
  | .shown uri =>
    ((s.shown uri).1.toList.map fun items => .diagnostics uri (Diagnostic.byLine items),
      (s.shown uri).2)

/-- A store takes several events in. -/
def takeAll (s : DiagnosticStore) : List DiagnosticEvent → List HostCall × DiagnosticStore
  | [] => ([], s)
  | e :: events =>
    ((s.take e).1 ++ ((s.take e).2.takeAll events).1, ((s.take e).2.takeAll events).2)

/-- A store knows what a history says. -/
structure Follows (s : DiagnosticStore) (events : List DiagnosticEvent) : Prop where
  data : ∀ uri, s.data.get? uri =
    if latest uri events = [] then none else some (latest uri events)
  dirty : ∀ uri, s.isDirty uri = true ↔ HeldBack uri events

variable {s : DiagnosticStore} {uri : String} {events : List DiagnosticEvent}

theorem takeAll_append (s : DiagnosticStore) (events more : List DiagnosticEvent) :
    s.takeAll (events ++ more) =
      ((s.takeAll events).1 ++ ((s.takeAll events).2.takeAll more).1,
        ((s.takeAll events).2.takeAll more).2) := by
  induction events generalizing s with
  | nil => rfl
  | cons e events ih => simp [takeAll, ih]

theorem isDirty_iff : s.isDirty uri = true ↔ uri ∈ s.dirty := by
  simp [isDirty]

theorem isDirty_publish (s : DiagnosticStore) (other : String) (items : List Diagnostic)
    (visible : Bool) :
    (s.publish other items visible).isDirty uri = true ↔
      (other = uri ∧ visible = false) ∨ (other ≠ uri ∧ s.isDirty uri = true) := by
  rw [isDirty_iff, isDirty_iff, publish]
  by_cases h : other = uri
  · subst h
    cases visible with
    | true => simp
    | false =>
      simp only [Bool.false_eq_true, if_false]
      split <;> simp_all
  · cases visible with
    | true => simp [h, Ne.symm h]
    | false =>
      simp only [Bool.false_eq_true, if_false]
      split <;> simp [h, Ne.symm h]

theorem isDirty_shown (s : DiagnosticStore) (other : String) :
    (s.shown other).2.isDirty uri = true ↔ other ≠ uri ∧ s.isDirty uri = true := by
  unfold shown
  split
  · by_cases h : other = uri
    · simp [isDirty, h]
    · simp [isDirty, h, Ne.symm h]
  · rename_i h
    refine ⟨fun hd => ⟨?_, hd⟩, fun hd => hd.2⟩
    rintro rfl
    exact h hd

theorem data_shown (s : DiagnosticStore) (other : String) : (s.shown other).2.data = s.data := by
  unfold shown
  split <;> rfl

theorem Follows.get (h : s.Follows events) (uri : String) : s.get uri = latest uri events := by
  rw [DiagnosticStore.get, h.data]
  split <;> rename_i hl
  · exact hl.symm
  · rfl

theorem follows_empty : empty.Follows [] :=
  ⟨fun _ => rfl, fun _ => iff_of_false (by simp [empty, isDirty]) not_heldBack_nil⟩

theorem data_publish (s : DiagnosticStore) (other : String) (items : List Diagnostic)
    (visible : Bool) : (s.publish other items visible).data.get? uri =
      if other = uri then (if items = [] then none else some items) else s.data.get? uri := by
  unfold publish
  by_cases h : other = uri
  · subst h
    by_cases hi : items = [] <;> simp [hi, Keyed.get?_erase_self]
  · by_cases hi : items = []
    · simp [hi, h, Keyed.get?_erase_of_ne _ (Ne.symm h)]
    · simp [hi, h, Keyed.get?_put_of_ne _ _ (Ne.symm h)]

theorem follows_take (h : s.Follows events) (e : DiagnosticEvent) :
    (s.take e).2.Follows (events ++ [e]) := by
  cases e with
  | shown other =>
    refine ⟨fun uri => ?_, fun uri => ?_⟩
    · rw [latest_append_shown]
      exact (congrArg (Keyed.get? uri) (s.data_shown other)).trans (h.data uri)
    · rw [heldBack_append, ← h.dirty]
      exact (s.isDirty_shown other).trans (by simp [DiagnosticEvent.uri])
  | published other items visible =>
    refine ⟨fun uri => ?_, fun uri => ?_⟩
    · rw [latest_append_published]
      refine (s.data_publish other items visible).trans ?_
      split
      · rfl
      · exact h.data uri
    · rw [heldBack_append, ← h.dirty]
      exact (s.isDirty_publish other items visible).trans (by simp [DiagnosticEvent.uri])

/-! ## What the store puts on screen -/

theorem linesOf_take_of_ne (s : DiagnosticStore) {e : DiagnosticEvent} (he : e.uri ≠ uri) :
    linesOf uri (s.take e).1 = [] := by
  cases e with
  | published other items visible =>
    have ho : other ≠ uri := he
    cases visible <;> simp [take, linesOf, lines?, ho]
  | shown other =>
    have ho : other ≠ uri := he
    cases h : (s.shown other).1 <;> simp [take, linesOf, lines?, ho, h]

/-- A store puts on screen what its history does. -/
theorem screen_take (h : s.Follows events) {told : List HostCall}
    (hs : screen uri told = Diagnostic.byLine (onScreen uri events)) (e : DiagnosticEvent) :
    screen uri (told ++ (s.take e).1) = Diagnostic.byLine (onScreen uri (events ++ [e])) := by
  by_cases he : e.uri = uri
  · cases e with
    | published other items visible =>
      obtain rfl : other = uri := he
      cases visible with
      | true =>
        have hget := (follows_take h (.published other items true)).get other
        rw [latest_append_published, if_pos rfl] at hget
        simp only [onScreen, seen_append_published, and_self, if_true, List.getLast?_append_cons,
          List.getLast?_singleton, Option.getD_some]
        rw [screen_append]
        simp only [take, if_true, linesOf, List.filterMap_cons, lines?, List.filterMap_nil,
          List.getLast?_singleton, Option.getD_some, byLine]
        exact congrArg Diagnostic.byLine hget
      | false =>
        rw [onScreen, seen_append_published, if_neg (by simp)]
        exact (screen_append_of_nil (by simp [take])).trans hs
    | shown other =>
      obtain rfl : other = uri := he
      have hscreen : onScreen other (events ++ [.shown other]) = latest other events := by
        rw [onScreen, seen_append_shown, if_pos rfl]
        rfl
      rw [hscreen]
      by_cases hd : s.isDirty other = true
      · simp [screen_append, take, DiagnosticStore.shown, hd, linesOf, lines?, h.get]
      · rw [screen_append_of_nil (by simp [take, DiagnosticStore.shown, hd]), hs,
          onScreen_of_not_heldBack (mt (h.dirty other).2 hd)]
  · rw [screen_append_of_nil (s.linesOf_take_of_ne he), hs]
    cases e with
    | published other items visible =>
      rw [onScreen, onScreen, seen_append_published, if_neg fun hx => he hx.1]
    | shown other =>
      have ho : other ≠ uri := he
      rw [onScreen, onScreen, seen_append_shown, if_neg ho]

theorem follows_takeAll (h : s.Follows events) (more : List DiagnosticEvent) :
    (s.takeAll more).2.Follows (events ++ more) := by
  induction more generalizing s events with
  | nil => simpa [takeAll] using h
  | cons e more ih => simpa [takeAll] using ih (follows_take h e)

/-- So do several events, whatever else the host is told of other documents. -/
theorem screen_takeAll (h : s.Follows events) {told calls : List HostCall}
    (hs : screen uri told = Diagnostic.byLine (onScreen uri events))
    (more : List DiagnosticEvent) (hc : linesOf uri calls = linesOf uri (s.takeAll more).1) :
    screen uri (told ++ calls) = Diagnostic.byLine (onScreen uri (events ++ more)) := by
  rw [screen_append, hc, ← screen_append]
  clear hc calls
  induction more generalizing s events told with
  | nil => simpa [takeAll] using hs
  | cons e more ih => simpa [takeAll] using ih (follows_take h e) (screen_take h hs e)

end DiagnosticStore

end LanguageClient
