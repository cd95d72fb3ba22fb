import LanguageClient.Proofs.Diagnostic.Screen

/-!
# Diagnostics of several servers

Every server has a store of its own, and all of them tell one host. A document
of which one server alone publishes diagnostics is on screen as the history of
that server has it. When a server is removed, the host is told to clear the
documents that are in its store. This leaves a document out whose diagnostics
the server took back while it was hidden (`Displays.gone`).

* `Alone`: no other server publishes diagnostics of a document.
* `Displays.takes`, `Displays.removes`: the stores take events in, and some of
  them are removed.
-/
namespace LanguageClient

open HostCall

/-- In a list in which a name comes once, all may come from its entry. -/
theorem Keyed.flatMap_eq {α β : Type} {entries : Keyed α} {name : String} {value : α}
    {f : String × α → List β} (hn : entries.names.Nodup) (hv : entries.get? name = some value)
    (hf : ∀ entry ∈ entries, entry.1 ≠ name → f entry = []) :
    entries.flatMap f = f (name, value) := by
  induction entries with
  | nil => cases hv
  | cons entry rest ih =>
    obtain ⟨k, v⟩ := entry
    rw [names_cons, List.nodup_cons] at hn
    have hrest : ∀ entry ∈ rest, entry.1 ≠ name → f entry = [] :=
      fun entry he => hf entry (List.mem_cons_of_mem _ he)
    rw [get?_cons] at hv
    split at hv
    · rename_i hk
      subst hk
      have hnil : rest.flatMap f = [] := List.flatMap_eq_nil_iff.2 fun entry he =>
        hrest entry he fun hx => hn.1 (hx ▸ List.mem_map_of_mem (f := Prod.fst) he)
      rw [List.flatMap_cons, hnil, List.append_nil, Option.some.inj hv]
    · rename_i hk
      rw [List.flatMap_cons, hf (k, v) List.mem_cons_self hk, List.nil_append, ih hn.2 hv hrest]

namespace DiagnosticEvent

variable {name uri : String} {events more : List DiagnosticEvent}

theorem publications_append :
    publications uri (events ++ more) = publications uri events ++ publications uri more :=
  List.filterMap_append

theorem latest_of_unpublished (h : publications uri events = []) : latest uri events = [] := by
  rw [latest, h]
  rfl

theorem not_heldBack_of_unpublished (h : publications uri events = []) : ¬HeldBack uri events := by
  rintro ⟨before, items, after, rfl, -⟩
  simp [publications, items?] at h

/-- No server but one has published diagnostics of a document. -/
def Alone (name uri : String) (events : String → List DiagnosticEvent) : Prop :=
  ∀ other, other ≠ name → publications uri (events other) = []

theorem Alone.before {events new : String → List DiagnosticEvent}
    (h : Alone name uri fun other => events other ++ new other) : Alone name uri events := by
  intro other ho
  have := h other ho
  rw [publications_append, List.append_eq_nil_iff] at this
  exact this.1

end DiagnosticEvent

namespace DiagnosticStore

open DiagnosticEvent

variable {name uri : String}

/-- A store tells nothing of a document of which it was told nothing. -/
theorem linesOf_takeAll_of_unpublished {s : DiagnosticStore} {events more : List DiagnosticEvent}
    (hs : s.Follows events) (h : publications uri (events ++ more) = []) :
    linesOf uri (s.takeAll more).1 = [] := by
  induction more generalizing s events with
  | nil => rfl
  | cons e more ih =>
    have hrest := ih (follows_take hs e) (by simpa using h)
    rw [takeAll, linesOf_append, hrest, List.append_nil]
    by_cases he : e.uri = uri
    · rw [publications_append, List.append_eq_nil_iff] at h
      cases e with
      | published other items visible =>
        have ho : other = uri := he
        simp [publications, items?, ho] at h
      | shown other =>
        obtain rfl : other = uri := he
        have hd : s.isDirty other = false := by
          rw [← Bool.not_eq_true, hs.dirty]
          exact not_heldBack_of_unpublished h.1
        simp [take, DiagnosticStore.shown, hd]
    · exact s.linesOf_take_of_ne he

/-- The stores of some of the servers that are known, and what is on screen of a document when one
server alone has published diagnostics of it. -/
structure Displays (known : List String) (name uri : String) (stores : Keyed DiagnosticStore)
    (told : List HostCall) (events : String → List DiagnosticEvent) : Prop where
  nodup : stores.names.Nodup
  unknown : ∀ {other}, other ∉ known → other ∉ stores.names ∧ events other = []
  follows : ∀ {other store}, stores.get? other = some store → store.Follows (events other)
  held : name ∈ stores.names → Alone name uri events →
    screen uri told = Diagnostic.byLine (onScreen uri (events name))
  /-- The server is removed. -/
  gone : name ∉ stores.names → Alone name uri events →
    (screen uri told = [] ↔
      latest uri (events name) ≠ [] ∨ onScreen uri (events name) = [])

variable {known : List String} {stores : Keyed DiagnosticStore} {told calls : List HostCall}
  {events new : String → List DiagnosticEvent}

theorem Displays.keeps (h : Displays known name uri stores told events)
    (hc : linesOf uri calls = []) : Displays known name uri stores (told ++ calls) events := by
  refine ⟨h.nodup, h.unknown, h.follows, ?_, ?_⟩ <;> rw [screen_append_of_nil hc]
  · exact h.held
  · exact h.gone

/-- The stores take events in. -/
theorem Displays.takes (h : Displays known name uri stores told events)
    (hnew : ∀ other, other ∉ stores.names → new other = [])
    (hc : linesOf uri calls =
      stores.flatMap fun (other, store) => linesOf uri (store.takeAll (new other)).1) :
    Displays known name uri
      (stores.map fun (other, store) => (other, (store.takeAll (new other)).2))
      (told ++ calls) fun other => events other ++ new other := by
  have hnames : Keyed.names (stores.map fun (other, store) =>
      (other, (store.takeAll (new other)).2)) = stores.names :=
    Keyed.names_map (fun other store => (store.takeAll (new other)).2) stores
  have hothers (ha : Alone name uri fun other => events other ++ new other) :
      ∀ entry ∈ stores, entry.1 ≠ name →
        linesOf uri (entry.2.takeAll (new entry.1)).1 = [] := fun entry he hne =>
    linesOf_takeAll_of_unpublished (h.follows (Keyed.get?_of_mem h.nodup he)) (ha entry.1 hne)
  refine ⟨hnames ▸ h.nodup, fun {other} ho => ?_, fun {other store'} hget => ?_,
    fun hmem ha => ?_, fun hmem ha => ?_⟩
  · obtain ⟨hout, hnil⟩ := h.unknown ho
    rw [hnames, hnil, hnew other hout]
    exact ⟨hout, rfl⟩
  · obtain ⟨store, hs, rfl⟩ := Option.map_eq_some_iff.1 ((Keyed.get?_map
      (fun other store => (store.takeAll (new other)).2) stores other).symm.trans hget)
    exact follows_takeAll (h.follows hs) (new other)
  · rw [hnames] at hmem
    obtain ⟨store, hs⟩ := Keyed.exists_get? hmem
    rw [Keyed.flatMap_eq h.nodup hs (hothers ha)] at hc
    exact screen_takeAll (h.follows hs) (h.held hmem ha.before) (new name) hc
  · rw [hnames] at hmem
    have hnil : linesOf uri calls = [] := by
      rw [hc]
      refine List.flatMap_eq_nil_iff.2 fun entry he => hothers ha entry he ?_
      rintro rfl
      exact hmem (List.mem_map_of_mem (f := Prod.fst) he)
    rw [screen_append_of_nil hnil, hnew name hmem, List.append_nil]
    exact h.gone hmem ha.before

/-- Some servers are removed: the host is told to clear the documents in their stores. -/
theorem Displays.removes (h : Displays known name uri stores told events) {p : String → Bool}
    (hnil : ∀ lines ∈ linesOf uri calls, lines = [])
    (hc : linesOf uri calls ≠ [] ↔ ∃ other store, stores.get? other = some store ∧
      p other = true ∧ store.get uri ≠ []) :
    Displays known name uri (stores.filter fun entry => !p entry.1) (told ++ calls) events := by
  -- only the server that published diagnostics of the document has any in its store
  have hcleared (ha : Alone name uri events) : linesOf uri calls ≠ [] ↔
      name ∈ stores.names ∧ p name = true ∧ latest uri (events name) ≠ [] := by
    rw [hc]
    constructor
    · rintro ⟨other, store, hs, hp, hget⟩
      rw [(h.follows hs).get] at hget
      obtain rfl : other = name := by
        by_contra hne
        exact hget (latest_of_unpublished (ha other hne))
      exact ⟨Keyed.mem_names_of_get? hs, hp, hget⟩
    · rintro ⟨hmem, hp, hlatest⟩
      obtain ⟨store, hs⟩ := Keyed.exists_get? hmem
      exact ⟨name, store, hs, hp, by rwa [(h.follows hs).get]⟩
  have hmem : name ∈ Keyed.names (stores.filter fun entry => !p entry.1) ↔
      name ∈ stores.names ∧ p name = false := by
    have hnames : Keyed.names (stores.filter fun entry => !p entry.1) =
        stores.names.filter fun other => !p other := by
      rw [Keyed.names, Keyed.names, List.filter_map]
      rfl
    rw [hnames, List.mem_filter, Bool.not_eq_true']
  have hsub := Keyed.names_filter_sublist (fun entry => !p entry.1) stores
  refine ⟨hsub.nodup h.nodup, fun {other} ho => (h.unknown ho).imp_left (mt (hsub.subset ·)),
    fun {other store} hget => ?_, fun hin ha => ?_, fun hout ha => ?_⟩
  · rw [Keyed.get?_filter h.nodup, Option.filter_eq_some_iff] at hget
    exact h.follows hget.1
  · obtain ⟨hin, hp⟩ := hmem.1 hin
    have hkept : linesOf uri calls = [] := by
      by_contra hx
      rw [((hcleared ha).1 hx).2.1] at hp
      cases hp
    rw [screen_append_of_nil hkept]
    exact h.held hin ha
  · by_cases hlines : linesOf uri calls = []
    · rw [screen_append_of_nil hlines]
      by_cases hin : name ∈ stores.names
      · have hp : p name = true := by
          by_contra hp
          exact hout (hmem.2 ⟨hin, by simpa using hp⟩)
        have hlatest : latest uri (events name) = [] := by
          by_contra hx
          exact (hcleared ha).2 ⟨hin, hp, hx⟩ hlines
        rw [h.held hin ha, Diagnostic.byLine_eq_nil_iff]
        simp [hlatest]
      · exact h.gone hin ha
    · refine iff_of_true ?_ (.inl ((hcleared ha).1 hlines).2.2)
      obtain ⟨last, hlast⟩ := Option.ne_none_iff_exists'.1
        (mt List.getLast?_eq_none_iff.1 hlines)
      rw [screen_append, hlast]
      exact hnil last (List.mem_of_getLast? hlast)

end DiagnosticStore

end LanguageClient
