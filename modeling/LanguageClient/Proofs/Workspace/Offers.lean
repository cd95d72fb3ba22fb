import LanguageClient.Proofs.Workspace.Attachment

/-!
# No document is left behind

A document waits if it is not open although its language is routed to a
session that would take it (`Session.handles`). `Settled` says that only some
documents wait, for some sessions; between two calls none does. What a server
can do changes only while it is pumped, and it leaves word of the change; the
pump ends with an offer to each session that left word, after which nothing
waits for it.

* `Settled.tended`: behind the pumps of the sessions a document waits only
  for those that left word.
* `Settled.offerAll`: what offers to all of them leave.
* `run_settled`: what holds of every run.
-/
namespace LanguageClient.Workspace

/-- Documents that wait for a server are among the late ones. -/
def Settled (late : String → Session → Prop) (w : Workspace) : Prop :=
  ∀ ⦃uri d name s⦄, w.documents.get? uri = some d → d.server = none →
    w.route? d.languageId = some name → w.sessions.get? name = some s → s.handles d = true →
    late uri s

/-- No document waits. -/
abbrev IsSettled (w : Workspace) : Prop :=
  w.Settled fun _ _ => False

variable {w : Workspace} {name uri : String} {s s' : Session} {d d' : Document}
  {late : String → Session → Prop}

/-! ## Calls that are about no document, or one -/

/-- Sessions that take no more documents than before. -/
theorem Settled.onSessions (h : w.IsSettled) {sessions : Keyed Session}
    (hs : ∀ {name s'}, sessions.get? name = some s' → ∃ s, w.sessions.get? name = some s ∧
      ∀ d, s'.handles d = true → s.handles d = true) (departed : Keyed Connection) :
    IsSettled { w with sessions := sessions, departed := departed } := by
  intro uri d name s' hd hnone hroute hs' hhandles
  obtain ⟨s, hx, hto⟩ := hs hs'
  exact h hd hnone hroute hx (hto d hhandles)

/-- Only one document may wait. -/
abbrev SettledBut (uri : String) (w : Workspace) : Prop :=
  w.Settled fun other _ => other = uri

theorem Settled.all (h : w.SettledBut uri) (hx : ∀ d name s, w.documents.get? uri = some d →
    d.server = none → w.route? d.languageId = some name → w.sessions.get? name = some s →
    s.handles d = false) : w.IsSettled := by
  intro other d name s hd hnone hroute hs hhandles
  have ho : other = uri := h hd hnone hroute hs hhandles
  rw [hx d name s (ho ▸ hd) hnone hroute hs] at hhandles
  cases hhandles

theorem Settled.but (h : w.IsSettled) (uri : String) : w.SettledBut uri :=
  fun _ _ _ _ hd hnone hroute hs hx => (h hd hnone hroute hs hx).elim

/-- An operation on a document leaves no other one behind. -/
theorem Settled.store (h : w.SettledBut uri) (hs : w.sessions.get? name = some s)
    (hop : s.Serves d s' d') (huri : d.uri = uri) : (w.store name s' d').SettledBut uri := by
  intro other e server t he hnone hroute ht hhandles
  by_contra ho
  have he' : w.documents.get? other = some e := by
    rw [← he]
    exact (Keyed.get?_put_of_ne d' w.documents (by rw [hop.keeps.uri, huri]; exact ho)).symm
  have ht' : ∃ t₀, w.sessions.get? server = some t₀ ∧ t₀.handles e = true := by
    rw [Workspace.store, Keyed.get?_put] at ht
    split at ht
    · rename_i hx
      cases ht
      exact ⟨s, hx ▸ hs, hop.steady.handles e ▸ hhandles⟩
    · exact ⟨t, ht, hhandles⟩
  obtain ⟨t₀, ht₀, hhandles⟩ := ht'
  exact ho (h he' hnone hroute ht₀ hhandles)

/-- An operation on a document that does not leave it behind either. -/
theorem Settled.store_all (h : w.SettledBut uri) (hs : w.sessions.get? name = some s)
    (hop : s.Serves d s' d') (huri : d.uri = uri)
    (hkeep : d'.server = none → w.route? d.languageId = some name ∧ s.handles d = false) :
    (w.store name s' d').IsSettled := by
  intro other e server t he hnone hroute ht hhandles
  have hother : other = uri := h.store hs hop huri he hnone hroute ht hhandles
  have he' : e = d' := by
    rw [Workspace.store, hother, hop.keeps.uri, huri, Keyed.get?_put_self] at he
    exact (Option.some.inj he).symm
  subst he'
  obtain ⟨hname, hidle⟩ := hkeep hnone
  have hserver : server = name := by
    have hx : w.route? e.languageId = some server := hroute
    rw [hop.stays.languageId, hname] at hx
    exact (Option.some.inj hx).symm
  have hs' : t = s' := by
    rw [Workspace.store, hserver, Keyed.get?_put_self] at ht
    exact (Option.some.inj ht).symm
  rw [hs', hop.steady.handles, Session.handles_stays hop.stays, hidle] at hhandles
  cases hhandles

/-- What a document that waits for nobody does not begin to wait for. -/
theorem Settled.idle (h : w.IsSettled) (hs : w.sessions.get? name = some s)
    (hd : w.documents.get? uri = some d) (hfor : w.serverFor? d = some name)
    (hnone : d.server = none) : w.route? d.languageId = some name ∧ s.handles d = false := by
  have hroute := (w.serverFor?_of_not_open hnone).symm.trans hfor
  exact ⟨hroute, Bool.eq_false_iff.2 fun hx => h hd hnone hroute hs hx⟩

theorem Settled.erase (h : w.SettledBut uri) :
    IsSettled { w with documents := w.documents.erase uri } := by
  intro other d name s hd hnone hroute hs hhandles
  by_cases ho : other = uri
  · rw [ho, Keyed.get?_erase_self] at hd
    cases hd
  · rw [Keyed.get?_erase_of_ne _ ho] at hd
    exact ho (h hd hnone hroute hs hhandles)

theorem Settled.track (h : w.IsSettled) (d : Document) :
    SettledBut d.uri { w with documents := (w.documents.track d).2 } := by
  rcases track_cases w.documents d with ⟨known, -, he⟩ | ⟨-, he⟩ <;> rw [he]
  · exact h.but d.uri
  · intro other e name s hd hnone hroute hs hhandles
    rw [Keyed.get?_insert] at hd
    split at hd
    · rename_i ho
      exact ho
    · exact (h hd hnone hroute hs hhandles).elim

/-! ## Operations on documents -/

theorem Settled.withOpenDocument (h : w.IsSettled) (hw : Sound True w) (uri : String)
    {act : Session → Document → Except ClientError Bool × Document × Session}
    (hact : ∀ s d, Session.Serves s d (act s d).2.2 (act s d).2.1) :
    SettledBut uri (w.withOpenDocument uri act).2 ∧
      ((∀ s d, (act s d).2.1.server = d.server) → IsSettled (w.withOpenDocument uri act).2) := by
  rcases w.withOpenDocument_cases uri act with he | ⟨d, n, s, hd, hn, hs, he⟩ <;> rw [he]
  · exact ⟨h.but uri, fun _ => h⟩
  · refine ⟨(h.but uri).store hs (hact s d) (hw.keyed hd), fun hserver => ?_⟩
    refine (h.but uri).store_all hs (hact s d) (hw.keyed hd) fun hx => ?_
    rw [hserver, hn] at hx
    cases hx

theorem Settled.openDocument (h : w.IsSettled) (hw : Sound True w) (hd : d.server = none)
    (now : Nat) : IsSettled (w.openDocument d now).2.2 := by
  have ht := h.track d
  have hget := get?_track w.documents d
  have huri := (hw.track hd).keyed hget
  unfold Workspace.openDocument
  generalize w.documents.track d = tracked at ht hget huri
  obtain ⟨known, docs⟩ := tracked
  simp only at ht hget huri ⊢
  split
  · rename_i hroute
    refine ht.all fun e name s he _ hx _ => ?_
    rw [hget] at he
    cases he
    rw [Workspace.route?] at hroute hx
    rw [hroute] at hx
    cases hx
  rename_i name hroute
  split
  · rename_i hs
    refine ht.all fun e server s he _ hx hs' => ?_
    rw [hget] at he
    cases he
    cases hroute.symm.trans hx
    rw [hs] at hs'
    cases hs'
  rename_i s hs
  refine Settled.store_all ht hs (s.serves_didOpen known now) huri fun hnone => ⟨hroute, ?_⟩
  rw [s.didOpen_document known now] at hnone
  split at hnone
  · cases hnone
  · rename_i hx
    rw [Document.isOpen, hnone, Option.isSome_none, Bool.not_false, Bool.true_and] at hx
    exact Bool.eq_false_iff.2 hx

/-! ## Sessions that go -/

theorem Settled.shutdownServer (h : w.IsSettled) (hw : Sound True w) (name : String) (now : Nat) :
    IsSettled (w.shutdownServer name now).2 := by
  unfold Workspace.shutdownServer
  split
  · exact h
  intro uri d' server t hd' hnone hroute ht hhandles
  rw [Workspace.route?, Keyed.get?_filter hw.routes] at hroute
  obtain ⟨hroute, hne⟩ := Option.filter_eq_some_iff.1 hroute
  have hkept : server ≠ name := by simpa using hne
  rw [Keyed.get?_put_of_ne _ _ hkept] at ht
  obtain ⟨d, hd, ⟨rfl, -⟩ | ⟨rfl, hserver⟩⟩ := get?_detach hd'
  · exact h hd hnone hroute ht hhandles
  · have hx := (hw.attached hd hserver).1
    rw [Workspace.route?] at hx
    exact hkept (Option.some.inj (hroute.symm.trans hx))

/-! ## Pumping and offering -/

/-- Behind the pumps a document waits only for a session that left word. -/
theorem Settled.tended (h : w.IsSettled) (hw : Sound True w) (picked : Session → Bool)
    (visible : String → Bool) (now : Nat) :
    (w.tended picked visible now).Settled fun _ s => s.capabilitiesChanged = true := by
  have hn := hw.ordered.nodup
  intro uri d' name t hd' hnone hroute ht hhandles
  obtain ⟨s, hs, rfl, hstays⟩ := (get?_tended hn).1 ht
  obtain ⟨d, hd, ⟨rfl, -⟩ | ⟨rfl, n, s', hserver, hs', hgone⟩⟩ := get?_tended_documents hn hd'
  · have hwakes : s.Wakes (Workspace.pumped picked visible now s) := by
      unfold Workspace.pumped
      split
      · exact s.wakes_pump visible now
      · exact (Session.Steady.refl s).wakes
    rcases hwakes.news with hc | hto
    · exact hc
    · exact (h hd hnone hroute hs (hto d' hhandles)).elim
  · -- a detached document has its route to the session that went
    have hname : name = n := Option.some.inj (hroute.symm.trans (hw.attached hd hserver).1)
    rw [hname, hs'] at hs
    cases hs
    rw [hstays] at hgone
    cases hgone

/-- An offer opens what waits for its session, whose word is then taken. -/
theorem Settled.offer (h : w.Settled fun _ s => s.capabilitiesChanged = true) (name : String)
    (now : Nat) :
    ((w.offer name now).2.Settled fun _ s => s.capabilitiesChanged = true) ∧
      ∀ other t, (w.offer name now).2.sessions.get? other = some t →
        (other = name ∨ ∀ t₀, w.sessions.get? other = some t₀ → t₀.capabilitiesChanged = false) →
        t.capabilitiesChanged = false := by
  rcases w.offer_cases name now with ⟨he, hc⟩ | ⟨s, calls, docs, s', hs, hc, hopen, he⟩ <;> rw [he]
  · exact ⟨h, fun other t ht ho => ho.elim (fun hx => hc t (hx ▸ ht)) fun hx => hx t ht⟩
  have hst := openAll_steady name (w.waits name) now w.documents s.takeCapabilitiesChanged.2
  have hget := fun uri => @get?_openAll name uri (w.waits name) now
    s.takeCapabilitiesChanged.2 w.documents
  simp only [hopen] at hst hget
  have htaken : s'.capabilitiesChanged = false := hst.capabilitiesChanged
  refine ⟨fun uri d' server t hd' hnone hroute ht hhandles => ?_, fun other t ht ho => ?_⟩
  · obtain ⟨d, hd, ⟨rfl, -⟩ | ⟨rfl, hleft⟩⟩ := hget uri hd'
    · cases hnone
    rw [Keyed.get?_put] at ht
    split at ht
    · rename_i hx
      cases ht
      refine absurd ⟨w.waits_iff.2 ⟨hnone, hx ▸ hroute⟩, hnone, ?_⟩ hleft
      rw [← hst.handles d']
      exact hhandles
    · exact h hd hnone hroute ht hhandles
  · rw [Keyed.get?_put] at ht
    split at ht
    · cases ht
      exact htaken
    · rename_i hx
      exact ho.resolve_left hx t ht

theorem Settled.offerAll (now : Nat) (names : List String) :
    ∀ {w : Workspace}, (w.Settled fun _ s => s.capabilitiesChanged = true) →
      ((Workspace.offerAll now names w).2.Settled fun _ s => s.capabilitiesChanged = true) ∧
        ∀ other t, (Workspace.offerAll now names w).2.sessions.get? other = some t →
          (other ∈ names ∨
            ∀ t₀, w.sessions.get? other = some t₀ → t₀.capabilitiesChanged = false) →
          t.capabilitiesChanged = false := by
  induction names with
  | nil =>
    intro w h
    refine ⟨h, fun other t ht ho => ?_⟩
    exact ho.resolve_left (by simp) t ht
  | cons name names ih =>
    intro w h
    obtain ⟨hoffer, hword⟩ := h.offer name now
    obtain ⟨hall, hwords⟩ := ih hoffer
    refine ⟨hall, fun other t ht ho => hwords other t ht ?_⟩
    rcases ho with ho | ho
    · rcases List.mem_cons.1 ho with hx | hx
      · exact .inr fun t₀ ht₀ => hword other t₀ ht₀ (.inl hx)
      · exact .inl hx
    · exact .inr fun t₀ ht₀ => hword other t₀ ht₀ (.inr ho)

theorem Settled.pumpWhere (h : w.IsSettled) (hw : Sound True w) (picked : Session → Bool)
    (visible : String → Bool) (now : Nat) : IsSettled (w.pumpWhere picked visible now).2.2 := by
  obtain ⟨hall, hwords⟩ := Settled.offerAll now (w.tended picked visible now).sessions.names
    (h.tended hw picked visible now)
  intro uri d name t hd hnone hroute ht hhandles
  have hc := hwords name t ht ?_
  · rw [hall hd hnone hroute ht hhandles] at hc
    cases hc
  · by_cases hn : name ∈ (w.tended picked visible now).sessions.names
    · exact .inl hn
    · refine .inr fun t₀ ht₀ => ?_
      rw [Keyed.get?_eq_none_iff.2 hn] at ht₀
      cases ht₀

/-! ## Every operation -/

theorem settled_step (h : w.IsSettled) (hw : Sound True w) (action : WorkspaceAction) :
    IsSettled (w.step action) := by
  cases action with
  | between c =>
    refine h.onSessions (fun {name s'} hs' => ?_) _
    obtain ⟨s, hs, rfl⟩ := Option.map_eq_some_iff.1 ((Keyed.get?_map (fun key s =>
      if key = c.name then { s with connection := c.change s.connection } else s)
      w.sessions name).symm.trans hs')
    refine ⟨s, hs, fun d hd => ?_⟩
    split at hd <;> exact hd
  | openDocument uri path languageId text now => exact h.openDocument hw rfl now
  | changeDocument uri text now =>
    exact (h.withOpenDocument hw uri fun s d => s.serves_didChange d text now).2
      fun s d => (s.keeps_didChange d text now).2
  | saveDocument uri text now =>
    exact (h.withOpenDocument hw uri fun s d => s.serves_didSave d text now).2
      fun s d => s.server_didSave d text now
  | closeDocument uri text now =>
    exact (h.withOpenDocument hw uri fun s d => s.serves_didClose d text now).1.erase
  | documentShown uri =>
    refine h.onSessions (fun {name s'} hs' => ?_) w.departed
    rw [shownIn_sessions, Keyed.get?_map fun _ (t : Session) => (t.shown uri).2] at hs'
    obtain ⟨s, hs, rfl⟩ := Option.map_eq_some_iff.1 hs'
    exact ⟨s, hs, fun d hd => (s.steady_shown uri).handles d ▸ hd⟩
  | ask uri text q now =>
    rcases w.ask_cases uri text q now with he | ⟨d, n, s, hd, hfor, hs, -, he⟩
    · exact (congrArg IsSettled he).mpr h
    · refine (congrArg IsSettled he).mpr ((h.but uri).store_all hs (s.serves_ask d text now q)
        (hw.keyed hd) fun hnone => ?_)
      refine h.idle hs hd hfor ?_
      rcases s.server_ask d text now q with hkept | ⟨hd', -⟩
      · exact hkept.symm.trans hnone
      · exact hd'
  | workspaceSymbols languageId query now =>
    simp only [step, Workspace.workspaceSymbols]
    split
    · exact h
    split
    · exact h
    rename_i name _ s hs
    refine h.onSessions (fun {other s'} hs' => ?_) w.departed
    rw [Keyed.get?_put] at hs'
    split at hs'
    · rename_i ho
      cases hs'
      exact ⟨s, ho ▸ hs, fun d hd => (s.steady_workspaceSymbols now query).handles d ▸ hd⟩
    · exact ⟨s', hs', fun _ hd => hd⟩
  | pump visible now => exact h.pumpWhere hw _ visible now
  | pumpDue time visible now => exact h.pumpWhere hw _ visible now
  | shutdownServer name now => exact h.shutdownServer hw name now
  | shutdownAll now rounds last =>
    intro uri d name s _ _ _ hs
    cases hs

theorem settled_run (actions : List WorkspaceAction) :
    ∀ {w : Workspace}, Sound True w → w.IsSettled → (w.run actions).IsSettled := by
  induction actions with
  | nil =>
    intro w _ h
    exact h
  | cons action actions ih =>
    intro w hw h
    exact ih (sound_step hw action) (settled_step h hw action)

/-- **No document is left behind.** After every call, in whatever order documents were opened,
handshakes done and methods registered, a document that is not open although the server of its
language is held and runs is one that this server does not want to be told of. -/
theorem run_settled {sessions : List Session} (h : ∀ s ∈ sessions, s.IsReachable)
    (completion : CompletionSettings) (actions : List WorkspaceAction) {uri name : String}
    {d : Document} {s : Session} :
    let w := (ofSessions sessions completion).run actions
    w.documents.get? uri = some d → d.server = none → w.route? d.languageId = some name →
      w.sessions.get? name = some s → s.state = .running →
      s.supports Method.didOpen d = false := by
  intro w hd hnone hroute hs hrun
  have hw : w.IsSettled := settled_run actions (sound_ofSessions h completion)
    fun _ _ _ _ hx => by cases hx
  by_contra hsupports
  refine hw hd hnone hroute hs ?_
  simp only [Session.handles, Client.isRunning, Bool.and_eq_true, decide_eq_true_eq]
  exact ⟨hrun, by simpa using hsupports⟩

/-- The server answers the handshake and wants to be told of nothing. -/
def greetsSilently : WorkspaceAction :=
  .between ⟨"srv", fun c => { c with inbound := [.frame ⟨[], [],
    (Outgoing.reply (.number 1) (.ok (.obj [("capabilities", .obj [])]))).body⟩] }⟩

theorem run_settled_silent :
    let w := (ofSessions [unanswered] .standard).run
      [.openDocument "file:///a.py" none "python" "a\n" 0, greetsSilently, .pump (fun _ => true) 0]
    ∃ s, w.sessions.get? "srv" = some s ∧ s.state = .running ∧
      s.supports Method.didOpen (.new "file:///a.py" none "python" "a\n") = false := by
  intro w
  have hs : (w.sessions.get? "srv").map Session.state = some .running := by decide +kernel
  have hd : w.documents.get? "file:///a.py" =
      some (.new "file:///a.py" none "python" "a\n") := by decide +kernel
  obtain ⟨s, hs, hrun⟩ := Option.map_eq_some_iff.1 hs
  exact ⟨s, hs, hrun, run_settled unanswered_reachable .standard _ hd rfl (by decide +kernel) hs
    hrun⟩

end LanguageClient.Workspace
