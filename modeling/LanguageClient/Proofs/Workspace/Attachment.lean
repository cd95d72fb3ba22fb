import LanguageClient.Proofs.Session.Opened
import LanguageClient.Proofs.Workspace.Run

/-!
# Documents are attached to servers that run

A document that is open belongs to a session. `Workspace.Sound` says what
that means between two calls: the session is held, it runs, it has the route
of the document's language, and its server has the document as it is. While
the workspace shuts all servers down documents stay attached to sessions that
stop; `Sound` without calm leaves out what does not hold then.

* `Sound.store`, `Sound.offer`, `Sound.pumpWhere`, `Sound.shutdownServer`:
  what each part of an operation preserves.
* `sound_run`: every run from sessions that some host has left.
* `run_attached`: what follows for an open document, and that no call on it
  fails.
-/
namespace LanguageClient.Workspace

/-! ## The invariant -/

/-- A session serves a document: it has the route of its language and is held. In calm it runs and
its server has the document. -/
def Attends (w : Workspace) (calm : Prop) (name : String) (d : Document) : Prop :=
  w.route? d.languageId = some name ∧
    ∃ s, w.sessions.get? name = some s ∧ (calm → s.state = .running ∧ s.Mirrors d)

/-- A workspace as it is between two calls, if calm, or while it shuts all servers down. -/
structure Sound (calm : Prop) (w : Workspace) : Prop where
  sessions : ∀ {name s}, w.sessions.get? name = some s → s.Sound name
  ordered : w.sessions.Sorted
  documents : w.documents.Sorted
  routes : w.routes.names.Nodup
  keyed : ∀ {uri d}, w.documents.get? uri = some d → d.uri = uri
  attached : ∀ {uri d name}, w.documents.get? uri = some d → d.server = some name →
    w.Attends calm name d

variable {calm calm' : Prop} {w : Workspace} {name uri : String} {s s' : Session} {d d' : Document}

/-! ## One session and one document -/

/-- The sessions go on, each on its own. -/
theorem Sound.onSessions (h : Sound calm w) {sessions : Keyed Session}
    (hn : sessions.names = w.sessions.names) (hc : calm' → calm)
    (hs : ∀ {name s s'}, w.sessions.get? name = some s → sessions.get? name = some s' →
      s'.Sound name ∧ (calm' → s.state = .running → s'.state = .running) ∧
        ∀ d, s.Mirrors d → s'.Mirrors d) (departed : Keyed Connection) :
    Sound calm' { w with sessions := sessions, departed := departed } := by
  refine ⟨fun {name s'} hs' => ?_, h.ordered.of_names hn, h.documents, h.routes, h.keyed,
    fun {uri d name} hd hserver => ?_⟩
  · obtain ⟨s, hx⟩ := Keyed.exists_get? (hn ▸ Keyed.mem_names_of_get? hs')
    exact (hs hx hs').1
  · obtain ⟨hroute, s, hx, hrun⟩ := h.attached hd hserver
    obtain ⟨s', hs'⟩ := Keyed.exists_get? (hn.symm ▸ Keyed.mem_names_of_get? hx)
    obtain ⟨-, hstate, hmirrors⟩ := hs hx hs'
    exact ⟨hroute, s', hs', fun c => ⟨hstate c (hrun (hc c)).1, hmirrors d (hrun (hc c)).2⟩⟩

/-- All sessions go on, and say nothing about documents. -/
theorem Sound.mapSessions (h : Sound calm w) (hc : calm' → calm) (f : String → Session → Session)
    (hf : ∀ {name s}, s.Sound name → s.Carries (f name s) ∧
      (f name s).client.outbound = [] ∧ (calm' → s.state = .running → (f name s).state = .running))
    (departed : Keyed Connection) :
    Sound calm' { w with
      sessions := w.sessions.map fun (name, s) => (name, f name s), departed := departed } := by
  refine h.onSessions (Keyed.names_map f w.sessions) hc (fun {name s s'} hs hs' => ?_) departed
  rw [Keyed.get?_map f, hs, Option.map_some, Option.some.injEq] at hs'
  subst hs'
  obtain ⟨hcarries, hidle, hstate⟩ := hf (h.sessions hs)
  exact ⟨(h.sessions hs).carries hcarries hidle, hstate, fun d => hcarries.mirrors⟩

/-- One session goes on. -/
theorem Sound.onSession (h : Sound calm w) (hs : w.sessions.get? name = some s)
    (hs' : s'.Sound name) (hstate : s'.state = s.state) (hm : ∀ d, s.Mirrors d → s'.Mirrors d) :
    Sound calm { w with sessions := w.sessions.put name s' } := by
  refine h.onSessions (Keyed.names_put (Keyed.mem_names_of_get? hs) s') id
    (fun {other t t'} ht ht' => ?_) w.departed
  rw [Keyed.get?_put] at ht'
  split at ht'
  · rename_i ho
    rw [ho, hs] at ht
    cases ht
    cases ht'
    exact ⟨ho ▸ hs', fun _ hr => hstate.trans hr, hm⟩
  · rw [ht] at ht'
    cases ht'
    exact ⟨h.sessions ht, fun _ hr => hr, fun _ hd => hd⟩

/-- An operation on a document with its session, or with the one it is routed to. -/
theorem Sound.store (h : Sound True w) (hs : w.sessions.get? name = some s)
    (hd : w.documents.get? uri = some d) (hop : s.Serves d s' d')
    (hfor : w.serverFor? d = some name) : Sound True (w.store name s' d') := by
  have hnamed := (h.sessions hs).named
  have hattached : ∀ {other}, d.server = some other → other = name := fun {other} ho => by
    rw [w.serverFor?_of_open ho] at hfor
    exact Option.some.inj hfor
  have hruns : d.server = some name → s.state = .running ∧ s.Mirrors d := fun hserver => by
    obtain ⟨-, t, ht, hrun⟩ := h.attached hd hserver
    rw [hs] at ht
    cases ht
    exact hrun trivial
  obtain ⟨hs', hmirror, hothers⟩ := hop.sound (h.sessions hs) fun _ hx => (hruns hx).2
  have huri : d'.uri = uri := hop.keeps.uri.trans (h.keyed hd)
  have hdocs : ∀ {other e}, (w.documents.put d'.uri d').get? other = some e →
      (other = uri ∧ e = d') ∨ (other ≠ uri ∧ w.documents.get? other = some e) := by
    intro other e he
    rw [Keyed.get?_put, huri] at he
    split at he
    · rename_i ho
      exact .inl ⟨ho, (Option.some.inj he).symm⟩
    · rename_i ho
      exact .inr ⟨ho, he⟩
  refine ⟨fun {other t} ht => ?_, ?_, ?_, h.routes, fun {other e} he => ?_,
    fun {other e server} he hserver => ?_⟩
  · rw [Workspace.store, Keyed.get?_put] at ht
    split at ht
    · rename_i ho
      cases ht
      exact ho ▸ hs'
    · exact h.sessions ht
  · exact h.ordered.of_names (Keyed.names_put (Keyed.mem_names_of_get? hs) s')
  · exact h.documents.of_names
      (Keyed.names_put (huri ▸ Keyed.mem_names_of_get? hd) d')
  · rcases hdocs he with ⟨rfl, rfl⟩ | ⟨-, he⟩
    · exact huri
    · exact h.keyed he
  · have hsession : (w.sessions.put name s').get? name = some s' := Keyed.get?_put_self ..
    rcases hdocs he with ⟨rfl, rfl⟩ | ⟨ho, hold⟩
    · have hx : server = name := (hop.stays.server server hserver).elim hattached
        fun ho => ho.trans hnamed
      subst hx
      have hrun : s.state = .running := by
        by_contra hr
        exact hr (hruns (hnamed ▸ hop.keeps.early hr (hnamed.symm ▸ hserver))).1
      refine ⟨?_, s', hsession, fun _ => ⟨hop.keeps.state.trans hrun, ?_⟩⟩
      · rw [hop.stays.languageId]
        cases hx : d.server with
        | none => exact (w.serverFor?_of_not_open hx).symm.trans hfor
        | some other => exact hattached hx ▸ (h.attached hd hx).1
      · exact hmirror (hop.keeps.state.trans hrun) hserver
    · obtain ⟨hroute, t, ht, hrun⟩ := h.attached hold hserver
      refine ⟨hroute, ?_⟩
      by_cases hx : server = name
      · subst hx
        rw [hs] at ht
        cases ht
        obtain ⟨hr, hm⟩ := hrun trivial
        have hne : e.uri ≠ d.uri := by rw [h.keyed hold, h.keyed hd]; exact ho
        exact ⟨s', hsession, fun _ => ⟨hop.keeps.state.trans hr, hothers e hne hm⟩⟩
      · exact ⟨t, (Keyed.get?_put_of_ne s' w.sessions hx).trans ht, hrun⟩

/-! ## Documents alone -/

/-- Documents come, go or are detached. -/
theorem Sound.onDocuments (h : Sound calm w) {docs : DocumentStore} (hs : docs.Sorted)
    (hd : ∀ {uri d}, docs.get? uri = some d → d.uri = uri ∧
      ∀ name, d.server = some name → w.documents.get? uri = some d) :
    Sound calm { w with documents := docs } where
  sessions := h.sessions
  ordered := h.ordered
  documents := hs
  routes := h.routes
  keyed hx := (hd hx).1
  attached hx hserver := h.attached ((hd hx).2 _ hserver) hserver

theorem track_cases (docs : DocumentStore) (d : Document) :
    (∃ known, docs.get? d.uri = some known ∧ docs.track d = (known, docs)) ∨
      (docs.get? d.uri = none ∧ docs.track d = (d, docs.insert d.uri d)) := by
  unfold DocumentStore.track
  split
  · rename_i known hk
    exact .inl ⟨known, hk, rfl⟩
  · rename_i hn
    exact .inr ⟨hn, rfl⟩

theorem get?_track (docs : DocumentStore) (d : Document) :
    (docs.track d).2.get? d.uri = some (docs.track d).1 := by
  rcases track_cases docs d with ⟨known, hk, he⟩ | ⟨-, he⟩ <;> rw [he]
  · exact hk
  · simp [Keyed.get?_insert]

theorem Sound.track (h : Sound calm w) (hd : d.server = none) :
    Sound calm { w with documents := (w.documents.track d).2 } := by
  rcases track_cases w.documents d with ⟨known, -, he⟩ | ⟨-, he⟩ <;> rw [he]
  · exact h
  · refine h.onDocuments (h.documents.insert d.uri d) fun {uri e} he => ?_
    rw [Keyed.get?_insert] at he
    split at he
    · rename_i hu
      cases he
      exact ⟨hu.symm, fun name hx => by rw [hd] at hx; cases hx⟩
    · exact ⟨h.keyed he, fun _ _ => he⟩

theorem Sound.erase (h : Sound calm w) (uri : String) :
    Sound calm { w with documents := w.documents.erase uri } := by
  refine h.onDocuments (h.documents.filter _) fun {other e} he => ?_
  by_cases ho : other = uri
  · rw [ho, Keyed.get?_erase_self] at he
    cases he
  · rw [Keyed.get?_erase_of_ne _ ho] at he
    exact ⟨h.keyed he, fun _ _ => he⟩

/-! ## Sessions that go -/

theorem Sound.shutdownServer (h : Sound calm w) (name : String) (now : Nat) :
    Sound calm (w.shutdownServer name now).2 := by
  unfold Workspace.shutdownServer
  split
  · exact h
  rename_i s hs
  have hother : ∀ {uri d server}, (w.documents.detach name).get? uri = some d →
      d.server = some server → w.documents.get? uri = some d ∧ server ≠ name := by
    intro uri d server hd hserver
    obtain ⟨d₀, hd₀, ⟨rfl, hn⟩ | ⟨rfl, -⟩⟩ := get?_detach hd
    · exact ⟨hd₀, fun hx => hn (hx ▸ hserver)⟩
    · cases hserver
  refine ⟨fun {other t} ht => ?_, ?_, ?_, ?_, fun {uri d} hd => ?_, fun {uri d server} hd hx => ?_⟩
  · rw [Keyed.get?_put] at ht
    split at ht
    · rename_i ho
      cases ht
      exact ho ▸ (h.sessions hs).carries (s.carries_shutdown now) (Session.idle_flush ..)
    · exact h.sessions ht
  · exact h.ordered.of_names (Keyed.names_put (Keyed.mem_names_of_get? hs) _)
  · exact h.documents.of_names (names_detach w.documents name)
  · exact h.routes.sublist (Keyed.names_filter_sublist _ w.routes)
  · obtain ⟨d₀, hd₀, ⟨rfl, -⟩ | ⟨rfl, -⟩⟩ := get?_detach hd
    · exact h.keyed hd₀
    · exact (h.keyed hd₀ : d₀.uri = uri)
  · obtain ⟨hd₀, hne⟩ := hother hd hx
    obtain ⟨hroute, t, ht, hrun⟩ := h.attached hd₀ hx
    refine ⟨?_, t, (Keyed.get?_put_of_ne _ _ hne).trans ht, hrun⟩
    rw [Workspace.route?, Keyed.get?_filter h.routes, show w.routes.get? d.languageId = some server
      from hroute]
    simp [Option.filter, hne]

theorem Sound.pumped (h : Session.Sound name s) (picked : Session → Bool)
    (visible : String → Bool) (now : Nat) :
    (pumped picked visible now s).Sound name ∧ Session.Carries s (pumped picked visible now s) ∧
      (s.state = .running → (pumped picked visible now s).state = .running ∨
        (pumped picked visible now s).tornDown = true) := by
  unfold Workspace.pumped
  split
  · have hc := s.carries_pump visible now
    exact ⟨h.carries hc (Session.idle_pump h.idle visible now), hc,
      fun hr => Session.live_pump h.stage hr visible now⟩
  · exact ⟨h, .refl s, .inl⟩

/-- Pumped sessions that are torn down are removed, so the others still run. -/
theorem Sound.tended (h : Sound calm w) (picked : Session → Bool) (visible : String → Bool)
    (now : Nat) : Sound calm (w.tended picked visible now) := by
  have hn := h.ordered.nodup
  have hnames := names_pumped picked visible now w.sessions
  refine ⟨fun {n t} ht => ?_, (h.ordered.of_names hnames).filter _,
    h.documents.of_names (names_forget ..), h.routes, fun {uri d'} hd' => ?_,
    fun {uri d' n} hd' hserver => ?_⟩
  · obtain ⟨s, hs, rfl, -⟩ := (get?_tended hn).1 ht
    exact (Sound.pumped (h.sessions hs) picked visible now).1
  · obtain ⟨d, hd, ⟨rfl, -⟩ | ⟨rfl, -⟩⟩ := get?_tended_documents hn hd'
    · exact h.keyed hd
    · exact (h.keyed hd : d.uri = uri)
  · obtain ⟨d, hd, ⟨rfl, hstay⟩ | ⟨rfl, -⟩⟩ := get?_tended_documents hn hd'
    · obtain ⟨hroute, s, hs, hrun⟩ := h.attached hd hserver
      obtain ⟨-, hc, hlive⟩ := Sound.pumped (h.sessions hs) picked visible now
      have ht := hstay n s hserver hs
      exact ⟨hroute, _, (get?_tended hn).2 ⟨s, hs, rfl, ht⟩,
        fun c => ⟨(hlive (hrun c).1).resolve_right (by simp [ht]), hc.mirrors (hrun c).2⟩⟩
    · cases hserver

/-! ## Offering documents -/

/-- The documents a server opens are as its server has them, and so are still those it had. -/
theorem openAll_sound {wanted : Document → Bool} (hw : ∀ d, wanted d = true → d.server = none)
    (now : Nat) (docs : DocumentStore) (hn : docs.names.Nodup)
    (hk : ∀ {uri d}, (uri, d) ∈ docs → d.uri = uri) :
    ∀ {s : Session}, s.Sound name →
      (openAll name wanted now s docs).2.2.Sound name ∧
      (∀ {uri d}, (uri, d) ∈ docs →
        (wanted d && s.handles d → (openAll name wanted now s docs).2.2.Mirrors d) ∧
        (wanted d = false → s.Mirrors d → (openAll name wanted now s docs).2.2.Mirrors d)) ∧
      ∀ e : Document, e.uri ∉ docs.names → s.Mirrors e →
        (openAll name wanted now s docs).2.2.Mirrors e := by
  induction docs with
  | nil =>
    intro s h
    exact ⟨h, fun hx => (by cases hx), fun _ _ hm => hm⟩
  | cons entry rest ih =>
    intro s hs
    obtain ⟨uri, d⟩ := entry
    rw [Keyed.names_cons, List.nodup_cons] at hn
    have huri : d.uri = uri := hk List.mem_cons_self
    have ih := @ih hn.2 fun hx => hk (List.mem_cons_of_mem _ hx)
    have hapart : ∀ {other e}, (other, e) ∈ rest → e.uri ≠ d.uri := by
      intro other e he hx
      have hother : e.uri = other := hk (List.mem_cons_of_mem _ he)
      rw [← huri, ← hx, hother] at hn
      exact hn.1 (List.mem_map_of_mem (f := Prod.fst) he)
    unfold openAll
    by_cases hd : wanted d
    · rw [if_pos hd]
      have hnone := hw d hd
      obtain ⟨hs₁, hopened, hothers⟩ := (s.serves_didOpen d now).sound hs fun _ hx => by
        rw [hnone] at hx
        cases hx
      obtain ⟨hs', hmem, hout⟩ := ih hs₁
      have hst := (s.steady_didOpen d now).1
      refine ⟨hs', fun {other e} he => ?_, fun e he hm => ?_⟩
      · rcases List.mem_cons.1 he with he | he
        · cases he
          refine ⟨fun hx => hout d (huri ▸ hn.1) ?_, fun hx => by rw [hd] at hx; cases hx⟩
          rw [hd, Bool.true_and] at hx
          have hrun : s.state = .running := by
            simp only [Session.handles, Client.isRunning, Bool.and_eq_true,
              decide_eq_true_eq] at hx
            exact hx.1
          have hdoc := s.didOpen_document d now
          rw [Document.isOpen, hnone, Option.isSome_none, Bool.not_false, Bool.true_and,
            if_pos hx] at hdoc
          rw [hdoc] at hopened
          exact hopened (hst.state.trans hrun) (congrArg some hs.named)
        · rw [← hst.handles e]
          exact ⟨(hmem he).1, fun hx hm => (hmem he).2 hx (hothers e (hapart he) hm)⟩
      · rw [Keyed.names_cons, List.mem_cons, not_or] at he
        exact hout e he.2 (hothers e (huri ▸ he.1) hm)
    · rw [if_neg hd]
      obtain ⟨hs', hmem, hout⟩ := ih hs
      refine ⟨hs', fun {other e} he => ?_, fun e he hm => ?_⟩
      · rcases List.mem_cons.1 he with he | he
        · cases he
          exact ⟨fun hx => by simp [hd] at hx, fun _ hm => hout d (huri ▸ hn.1) hm⟩
        · exact hmem he
      · rw [Keyed.names_cons, List.mem_cons, not_or] at he
        exact hout e he.2 hm

theorem Sound.offer (h : Sound calm w) (name : String) (now : Nat) :
    Sound calm (w.offer name now).2 := by
  rcases w.offer_cases name now with ⟨he, -⟩ | ⟨s, calls, docs, s', hs, -, hopen, he⟩ <;> rw [he]
  · exact h
  have hnone : ∀ d, w.waits name d = true → d.server = none := fun d hd =>
    (w.waits_iff.1 hd).1
  have hsound : s.takeCapabilitiesChanged.2.Sound name :=
    (h.sessions hs).carries (.of_eq rfl rfl rfl) (h.sessions hs).idle
  obtain ⟨hs', hmem, -⟩ := openAll_sound hnone now w.documents
    h.documents.nodup (fun hx => h.keyed (Keyed.get?_of_mem h.documents.nodup hx)) hsound
  have hst := openAll_steady name (w.waits name) now w.documents s.takeCapabilitiesChanged.2
  have hnames := names_openAll name (w.waits name) now s.takeCapabilitiesChanged.2 w.documents
  have hget := fun uri => @get?_openAll name uri (w.waits name) now
    s.takeCapabilitiesChanged.2 w.documents
  simp only [hopen] at hs' hmem hst hnames hget
  refine ⟨fun {other t} ht => ?_, ?_, h.documents.of_names hnames, h.routes,
    fun {uri d'} hd' => ?_, fun {uri d' server} hd' hserver => ?_⟩
  · rw [Keyed.get?_put] at ht
    split at ht
    · rename_i ho
      cases ht
      exact ho ▸ hs'
    · exact h.sessions ht
  · exact h.ordered.of_names (Keyed.names_put (Keyed.mem_names_of_get? hs) s')
  · obtain ⟨d, hd, ⟨rfl, -⟩ | ⟨rfl, -⟩⟩ := hget uri hd'
    · exact (h.keyed hd : d.uri = uri)
    · exact h.keyed hd
  · have hsession : (w.sessions.put name s').get? name = some s' := Keyed.get?_put_self ..
    obtain ⟨d, hd, ⟨rfl, hwait, hhandles⟩ | ⟨rfl, -⟩⟩ := hget uri hd'
    · have hname : server = name := (Option.some.inj hserver).symm.trans (h.sessions hs).named
      subst hname
      have hrun : s.state = .running := by
        have hx : s.handles d = true := hhandles
        simp only [Session.handles, Client.isRunning, Bool.and_eq_true, decide_eq_true_eq] at hx
        exact hx.1
      refine ⟨(w.waits_iff.1 hwait).2, s', hsession, fun _ => ⟨hst.state.trans hrun, ?_⟩⟩
      exact (hmem (Keyed.mem_of_get? hd)).1 (by simp [hwait, hhandles])
    · obtain ⟨hroute, t, ht, hrun⟩ := h.attached hd hserver
      refine ⟨hroute, ?_⟩
      by_cases hx : server = name
      · subst hx
        rw [hs] at ht
        cases ht
        have hwait : w.waits server d' = false := by simp [waits, Document.isOpen, hserver]
        exact ⟨s', hsession, fun c => ⟨hst.state.trans (hrun c).1,
          (hmem (Keyed.mem_of_get? hd)).2 hwait (hrun c).2⟩⟩
      · exact ⟨t, (Keyed.get?_put_of_ne s' w.sessions hx).trans ht, hrun⟩

theorem Sound.offerAll (now : Nat) (names : List String) :
    ∀ {w : Workspace}, Sound calm w → Sound calm (Workspace.offerAll now names w).2 := by
  induction names with
  | nil =>
    intro w h
    exact h
  | cons name names ih =>
    intro w h
    exact ih (h.offer name now)

theorem Sound.pumpWhere (h : Sound calm w) (picked : Session → Bool) (visible : String → Bool)
    (now : Nat) : Sound calm (w.pumpWhere picked visible now).2.2 :=
  .offerAll now _ (h.tended picked visible now)

/-! ## Shutting all servers down -/

theorem Sound.between (h : Sound calm w) (c : ConnectionChange) : Sound calm (w.between c) := by
  refine h.mapSessions id (fun key s =>
    if key = c.name then { s with connection := c.change s.connection } else s)
    (fun {name s} hs => ?_) _
  split
  · exact ⟨.of_eq rfl rfl rfl, hs.idle, fun _ hr => hr⟩
  · exact ⟨.refl s, hs.idle, fun _ hr => hr⟩

theorem Sound.shutdownAll (h : Sound True w) (now : Nat) : Sound False (w.shutdownAll now) :=
  h.mapSessions False.elim (fun _ s => s.shutdown now)
    (fun {_ s} _ => ⟨s.carries_shutdown now, Session.idle_flush .., False.elim⟩) w.departed

theorem Sound.changes (changes : List ConnectionChange) :
    ∀ {w : Workspace}, Sound calm w → Sound calm (changes.foldl Workspace.between w) := by
  induction changes with
  | nil =>
    intro w h
    exact h
  | cons c changes ih =>
    intro w h
    exact ih (h.between c)

theorem Sound.awaitGone (rounds : List ShutdownRound) :
    ∀ {w : Workspace}, Sound calm w → Sound calm (w.awaitGone rounds).2 := by
  induction rounds with
  | nil =>
    intro w h
    exact h
  | cons r rounds ih =>
    intro w h
    have hpumped := (h.changes r.before).pumpWhere (fun _ => true) r.visible r.now
    unfold Workspace.awaitGone
    simp only
    split
    · exact ih hpumped
    · exact hpumped

theorem Sound.killAll (h : Sound calm w) (now : Nat) : Sound True (w.killAll now).2 := by
  have hgone : ∀ {uri d}, (w.killAll now).2.documents.get? uri = some d →
      d.uri = uri ∧ d.server = none := by
    intro uri d' hd'
    obtain ⟨d, hd, ⟨rfl, hn⟩ | ⟨rfl, -⟩⟩ := get?_forget hd'
    · refine ⟨h.keyed hd, Option.eq_none_iff_forall_ne_some.2 fun n hserver => ?_⟩
      obtain ⟨-, s, hs, -⟩ := h.attached hd hserver
      refine hn n ?_ hserver
      exact (congrArg (n ∈ ·) (Keyed.names_map (fun _ (s : Session) => s.kill now) w.sessions)).mpr
        (Keyed.mem_names_of_get? hs)
    · exact ⟨(h.keyed hd : d.uri = uri), rfl⟩
  refine ⟨fun hs => (by cases hs), List.Pairwise.nil, h.documents.of_names (names_forget ..),
    h.routes, fun hd => (hgone hd).1, fun hd hserver => ?_⟩
  rw [(hgone hd).2] at hserver
  cases hserver

/-! ## Every operation -/

theorem nodup_addRoutes (name : String) (ids : List String) :
    ∀ {routes : Keyed String}, routes.names.Nodup → (addRoutes routes name ids).names.Nodup := by
  induction ids with
  | nil =>
    intro routes h
    exact h
  | cons id ids ih =>
    intro routes h
    refine ih ?_
    simp only
    split
    · exact h
    · exact Keyed.nodup_put h id name

/-- Languages are routed once, also when routes were there before. -/
theorem nodup_routes (sessions : Keyed Session) :
    ∀ {routes : Keyed String}, routes.names.Nodup →
      (sessions.foldl (fun routes (name, s) => addRoutes routes name s.languageIds)
        routes).names.Nodup := by
  induction sessions with
  | nil =>
    intro routes h
    exact h
  | cons entry sessions ih =>
    intro routes h
    exact ih (nodup_addRoutes entry.1 entry.2.languageIds h)

/-- Sessions are added under their names. -/
theorem sound_insertAll (sessions : List Session) (h : ∀ s ∈ sessions, s.IsReachable) :
    ∀ {all : Keyed Session}, all.Sorted → (∀ {name s}, all.get? name = some s → s.Sound name) →
      (sessions.foldl (fun all s => Keyed.insert s.name s all) all).Sorted ∧
        ∀ {name s}, (sessions.foldl (fun all s => Keyed.insert s.name s all) all).get? name =
          some s → s.Sound name := by
  induction sessions with
  | nil =>
    intro all hordered hsound
    exact ⟨hordered, hsound⟩
  | cons s sessions ih =>
    intro all hordered hsound
    refine ih (fun t ht => h t (List.mem_cons_of_mem _ ht)) (hordered.insert s.name s)
      fun {name t} ht => ?_
    rw [Keyed.get?_insert] at ht
    split at ht
    · rename_i hn
      cases ht
      exact hn ▸ (h s List.mem_cons_self).sound
    · exact hsound ht

theorem sound_ofSessions {sessions : List Session} (h : ∀ s ∈ sessions, s.IsReachable)
    (completion : CompletionSettings) : Sound True (ofSessions sessions completion) := by
  obtain ⟨hordered, hsessions⟩ := @sound_insertAll sessions h [] List.Pairwise.nil
    fun hs => by cases hs
  exact {
    sessions := hsessions
    ordered := hordered
    documents := List.Pairwise.nil
    routes := nodup_routes _ List.nodup_nil
    keyed := fun hd => by cases hd
    attached := fun hd => by cases hd }

theorem Sound.withOpenDocument (h : Sound True w) (uri : String)
    {act : Session → Document → Except ClientError Bool × Document × Session}
    (hact : ∀ s d, Session.Serves s d (act s d).2.2 (act s d).2.1) :
    Sound True (w.withOpenDocument uri act).2 := by
  rcases w.withOpenDocument_cases uri act with he | ⟨d, n, s, hd, hn, hs, he⟩ <;> rw [he]
  · exact h
  · exact h.store hs hd (hact s d) (w.serverFor?_of_open hn)

theorem Sound.openDocument (h : Sound True w) (hd : d.server = none) (now : Nat) :
    Sound True (w.openDocument d now).2.2 := by
  have ht := h.track hd
  have hget := get?_track w.documents d
  unfold Workspace.openDocument
  generalize w.documents.track d = tracked at ht hget
  obtain ⟨known, docs⟩ := tracked
  simp only at ht hget ⊢
  split
  · exact ht
  rename_i name hroute
  split
  · exact ht
  rename_i s hs
  have hop := s.serves_didOpen known now
  refine ht.store hs hget hop ?_
  cases hserver : known.server with
  | none => exact (serverFor?_of_not_open _ hserver).trans hroute
  | some other =>
    refine (serverFor?_of_open _ hserver).trans (congrArg some ?_)
    exact Option.some.inj ((ht.attached hget hserver).1.symm.trans hroute)

theorem sound_step (h : Sound True w) (action : WorkspaceAction) : Sound True (w.step action) := by
  cases action with
  | between c => exact h.between c
  | openDocument uri path languageId text now => exact h.openDocument rfl now
  | changeDocument uri text now =>
    exact h.withOpenDocument uri fun s d => s.serves_didChange d text now
  | saveDocument uri text now => exact h.withOpenDocument uri fun s d => s.serves_didSave d text now
  | closeDocument uri text now =>
    exact (h.withOpenDocument uri fun s d => s.serves_didClose d text now).erase uri
  | documentShown uri =>
    refine (congrArg (fun sessions => Sound True { w with sessions := sessions })
      (shownIn_sessions uri w.sessions)).mpr ?_
    exact h.mapSessions id (fun _ s => (s.shown uri).2) (fun {_ s} hs =>
      ⟨s.carries_shown uri, (s.steady_shown uri).idle hs.idle,
        fun _ hr => (s.steady_shown uri).state.trans hr⟩) w.departed
  | ask uri text q now =>
    rcases w.ask_cases uri text q now with he | ⟨d, n, s, hd, hn, hs, -, he⟩
    · exact (congrArg (Sound True) he).mpr h
    · exact (congrArg (Sound True) he).mpr (h.store hs hd (s.serves_ask d text now q) hn)
  | workspaceSymbols languageId query now =>
    simp only [step, Workspace.workspaceSymbols]
    split
    · exact h
    split
    · exact h
    rename_i s hs
    have hsteady := s.steady_workspaceSymbols now query
    have hc := s.carries_workspaceSymbols query now
    exact h.onSession hs ((h.sessions hs).carries hc (hsteady.idle (h.sessions hs).idle))
      hsteady.state fun d => hc.mirrors
  | pump visible now => exact h.pumpWhere _ visible now
  | pumpDue time visible now => exact h.pumpWhere _ visible now
  | shutdownServer name now => exact h.shutdownServer name now
  | shutdownAll now rounds last => exact ((h.shutdownAll now).awaitGone rounds).killAll last

theorem sound_run (actions : List WorkspaceAction) :
    ∀ {w : Workspace}, Sound True w → Sound True (w.run actions) := by
  induction actions with
  | nil =>
    intro w h
    exact h
  | cons action actions ih =>
    intro w h
    exact ih (sound_step h action)

/-! ## Open documents -/

theorem report_ok {α : Type} (name : String) {r : Except ClientError α} (h : ∃ a, r = .ok a) :
    (report name r).1 = [] ∧ (report name r).2.isSome := by
  obtain ⟨a, rfl⟩ := h
  exact ⟨rfl, rfl⟩

/-- **Open documents.** Between any two calls a document that is open has its session held, running
and routed for its language, and its server was told to open it and not to close it since. So no
call on it fails: changing, saving, closing and opening it again have no error to tell of, and a
question about it has an outcome. -/
theorem run_attached {sessions : List Session} (h : ∀ s ∈ sessions, s.IsReachable)
    (completion : CompletionSettings) (actions : List WorkspaceAction) (uri name : String)
    (d : Document) (hd : ((ofSessions sessions completion).run actions).documents.get? uri = some d)
    (hserver : d.server = some name) :
    let w := (ofSessions sessions completion).run actions
    (w.route? d.languageId = some name ∧ ∃ s, w.sessions.get? name = some s ∧
      s.state = .running ∧ ∃ before opening after, s.sent = before ++ opening :: after ∧
        opening.opens? = some uri ∧ ∀ message ∈ after, message.closes? ≠ some uri) ∧
    ∀ text now, (w.changeDocument uri text now).1 = [] ∧ (w.saveDocument uri text now).1 = [] ∧
      (w.closeDocument uri text now).1 = [] ∧
      (∀ path languageId,
        (w.openDocument (.new uri path languageId text) now).2.1 = []) ∧
      ∀ q, (w.ask uri text q now).1.isSome := by
  intro w
  change w.documents.get? uri = some d at hd
  have hw : Sound True w := sound_run actions (sound_ofSessions h completion)
  obtain ⟨hroute, s, hs, hrun⟩ := hw.attached hd hserver
  obtain ⟨hstate, hmirror⟩ := hrun trivial
  have huri : d.uri = uri := hw.keyed hd
  have hcall := fun act => w.withOpenDocument_eq hd hserver hs act
  refine ⟨⟨hroute, s, hs, hstate, huri ▸ hmirror.opened (hw.sessions hs).idle⟩,
    fun text now => ⟨?_, ?_, ?_, fun path languageId => ?_, fun q => ?_⟩⟩
  · rw [changeDocument, hcall]
    exact (report_ok name (Session.didChange_ok d text now hstate)).1
  · rw [saveDocument, hcall]
    exact (report_ok name (Session.didSave_ok d text now hstate)).1
  · simp only [closeDocument, hcall]
    exact (report_ok name (Session.didClose_ok d text now hstate)).1
  · have htrack : w.documents.track (.new uri path languageId text) = (d, w.documents) := by
      unfold DocumentStore.track
      rw [show (Document.new uri path languageId text).uri = uri from rfl, hd]
    simp only [openDocument, htrack, show w.route? d.languageId = some name from hroute, hs]
    exact (report_ok name (Session.didOpen_ok d now hstate)).1
  · simp only [ask, hd, w.serverFor?_of_open hserver, hs]
    exact (report_ok name (Session.ask_ok d text now q hstate)).2

theorem run_attached_greeted :
    let w := (ofSessions [unanswered] .standard).run
      [greets, .pump (fun _ => true) 0, .openDocument "file:///a.py" none "python" "a\n" 0]
    w.documents.get? "file:///a.py" = some Desk.opened ∧
      (∃ s, w.sessions.get? "srv" = some s ∧ s.state = .running) ∧
      (w.changeDocument "file:///a.py" "b\n" 0).1 = [] := by
  intro w
  have hd : w.documents.get? "file:///a.py" = some Desk.opened := by decide +kernel
  obtain ⟨⟨-, s, hs, hrun, -⟩, hcalls⟩ :=
    run_attached unanswered_reachable .standard _ "file:///a.py" "srv" Desk.opened hd rfl
  exact ⟨hd, ⟨s, hs, hrun⟩, (hcalls "b\n" 0).1⟩

end LanguageClient.Workspace
