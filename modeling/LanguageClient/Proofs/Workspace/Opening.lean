import LanguageClient.Proofs.Workspace.Attachment

/-!
# The text a document is opened with

A document is opened by the call that adds it, by a question about it, or by
a pump, when its server can take it. What is then sent is the snapshot that
the workspace has of it. The host may have passed another text meanwhile:
while a document is not open, no call but the one that adds it takes a text.

* `opens_step`: what a call opens, and with which text.
* `run_opening`: exactly when that is the text that the host passed last.
* `edit_lost`: a run in which it is not.
-/
namespace LanguageClient

def WorkspaceAction.text? (uri : String) : WorkspaceAction → Option String
  | openDocument other _ _ text _ => if other = uri then some text else none
  | changeDocument other text _ => if other = uri then some text else none
  | saveDocument other text _ => if other = uri then some text else none
  | closeDocument other text _ => if other = uri then some text else none
  | ask other text _ _ => if other = uri then some text else none
  | _ => none

/-- Whether an action is a question about a document. -/
def WorkspaceAction.asks : WorkspaceAction → Bool
  | ask _ _ _ _ => true
  | _ => false

namespace Workspace

/-- The text that was passed last for a document. -/
def latest? (uri : String) (actions : List WorkspaceAction) : Option String :=
  (actions.filterMap (WorkspaceAction.text? uri)).getLast?

/-- What a server that is held was told between two states of a workspace. -/
def told (w w' : Workspace) (name : String) : List Outgoing :=
  match w.sessions.get? name, w'.sessions.get? name with
  | some s, some s' => s'.log.drop s.log.length
  | _, _ => []

/-- Between two states of a workspace a server was told to open a document. -/
def Opens (w w' : Workspace) (name uri : String) : Prop :=
  uri ∈ (w.told w' name).filterMap Outgoing.opens?

instance (w w' : Workspace) (name uri : String) : Decidable (w.Opens w' name uri) :=
  inferInstanceAs (Decidable (uri ∈ _))

/-- Between two states of a workspace documents are opened only as `P` allows. -/
def OpensOnly (w w' : Workspace) (P : String → String → Prop) : Prop :=
  ∀ ⦃name s s'⦄, w.sessions.get? name = some s → w'.sessions.get? name = some s' →
    s.Tells s' fun message => ∀ uri, message.opens? = some uri → P name uri

variable {w w' w'' : Workspace} {name uri : String} {s s' : Session} {d d' : Document}
  {P : String → String → Prop}

theorem latest?_append (uri : String) (actions : List WorkspaceAction) (action : WorkspaceAction) :
    latest? uri (actions ++ [action]) = (action.text? uri <|> latest? uri actions) := by
  unfold latest?
  rw [List.filterMap_append]
  cases h : action.text? uri <;> simp [h]

theorem OpensOnly.of_opens (h : OpensOnly w w' P) (ho : w.Opens w' name uri) : P name uri := by
  obtain ⟨message, hm, hopens⟩ := List.mem_filterMap.1 ho
  unfold told at hm
  split at hm
  · rename_i s s' hs hs'
    obtain ⟨said, hlog, hp⟩ := h hs hs'
    rw [hlog, List.drop_left] at hm
    exact hp message hm uri hopens
  · cases hm

theorem exists_of_opens (ho : w.Opens w' name uri) : ∃ s, w'.sessions.get? name = some s := by
  obtain ⟨message, hm, -⟩ := List.mem_filterMap.1 ho
  unfold told at hm
  split at hm
  · rename_i s s' hs hs'
    exact ⟨s', hs'⟩
  · cases hm

/-! ## Calls that open nothing, or one document -/

/-- Only one session goes on. -/
theorem OpensOnly.put (hs : w.sessions.get? name = some s)
    (hsay : s.Tells s' fun message => ∀ uri, message.opens? = some uri → P name uri)
    (hput : w'.sessions = w.sessions.put name s') : OpensOnly w w' P := by
  intro other t t' ht ht'
  rw [hput, Keyed.get?_put] at ht'
  split at ht'
  · rename_i ho
    rw [ho, hs] at ht
    cases ht
    cases ht'
    exact ho ▸ hsay
  · rw [ht] at ht'
    cases ht'
    exact .refl t _

/-- All sessions go on, and say nothing about documents. -/
theorem OpensOnly.map (f : String → Session → Session) (hf : ∀ name s, Session.Carries s (f name s))
    (hmap : w'.sessions = w.sessions.map fun (name, s) => (name, f name s)) : OpensOnly w w' P := by
  intro name s s' hs hs'
  rw [hmap, Keyed.get?_map f, hs, Option.map_some, Option.some.injEq] at hs'
  exact hs' ▸ (hf name s).tells.silent _

theorem OpensOnly.refl (w : Workspace) : OpensOnly w w P := by
  intro name s s' hs hs'
  rw [hs] at hs'
  cases hs'
  exact .refl s _

theorem OpensOnly.withOpenDocument (uri : String)
    {act : Session → Document → Except ClientError Bool × Document × Session}
    (hact : ∀ s d, Session.Tells s (act s d).2.2 fun message => message.opens? = none) :
    OpensOnly w (w.withOpenDocument uri act).2 P := by
  rcases w.withOpenDocument_cases uri act with he | ⟨d, n, s, -, -, hs, he⟩ <;> rw [he]
  · exact OpensOnly.refl w
  · exact OpensOnly.put hs ((hact s d).silent _) rfl

/-! ## Offers -/

/-- What is told of is a document that was not open, and is now. -/
theorem openAll_tells (name : String) (wanted : Document → Bool) (now : Nat)
    (docs : DocumentStore) :
    ∀ s : Session, s.Tells (openAll name wanted now s docs).2.2 fun message => ∀ uri,
      message.opens? = some uri → ∃ key d, (key, d) ∈ docs ∧ d.uri = uri ∧ d.server = none ∧
        (key, { d with server := some s.name }) ∈ (openAll name wanted now s docs).2.1 := by
  induction docs with
  | nil =>
    intro s
    exact .refl s _
  | cons entry rest ih =>
    intro s
    obtain ⟨key, d⟩ := entry
    unfold openAll
    split
    · have hname := (s.steady_didOpen d now).1.name
      refine ((s.tells_didOpen d now).mono fun message hm uri hx => ?_).trans
        ((ih (s.didOpen d now).2.2).mono fun message hm uri hx => ?_)
      · obtain ⟨hu, hnone, -, hdoc⟩ := hm uri hx
        exact ⟨key, d, List.mem_cons_self, hu.symm, hnone, by simp [hdoc]⟩
      · obtain ⟨key', e, he, hu, hnone, hopened⟩ := hm uri hx
        rw [hname] at hopened
        exact ⟨key', e, List.mem_cons_of_mem _ he, hu, hnone, List.mem_cons_of_mem _ hopened⟩
    · refine (ih s).mono fun message hm uri hx => ?_
      obtain ⟨key', e, he, hu, hnone, hopened⟩ := hm uri hx
      exact ⟨key', e, List.mem_cons_of_mem _ he, hu, hnone, List.mem_cons_of_mem _ hopened⟩

/-- A document that was not open is open with a server, and else as it was. -/
def Opened (w w' : Workspace) (name uri : String) : Prop :=
  ∃ d, w.documents.get? uri = some d ∧ d.server = none ∧
    w'.documents.get? uri = some { d with server := some name }

/-- An offer leaves a document alone that is open, and one that is not open was not open before. -/
theorem offer_documents (w : Workspace) (offered : String) (now : Nat) (uri : String) :
    (∀ d, w.documents.get? uri = some d → d.server ≠ none →
      (w.offer offered now).2.documents.get? uri = some d) ∧
    ∀ d', (w.offer offered now).2.documents.get? uri = some d' → d'.server = none →
      w.documents.get? uri = some d' := by
  rcases w.offer_cases offered now with ⟨he, -⟩ | ⟨s, calls, docs, s', -, -, hopen, he⟩ <;> rw [he]
  · exact ⟨fun d hd _ => hd, fun d' hd' _ => hd'⟩
  have hnames := names_openAll offered (w.waits offered) now s.takeCapabilitiesChanged.2 w.documents
  have hget := fun d' => @get?_openAll offered uri (w.waits offered) now
    s.takeCapabilitiesChanged.2 w.documents d'
  simp only [hopen] at hnames hget
  refine ⟨fun d hd hopened => ?_, fun d' hd' hnone => ?_⟩
  · obtain ⟨d', hd'⟩ := Keyed.exists_get?
      (show uri ∈ Keyed.names docs from hnames ▸ Keyed.mem_names_of_get? hd)
    obtain ⟨e, he, ⟨-, hwaits, -⟩ | ⟨rfl, -⟩⟩ := hget d' hd'
    · rw [hd] at he
      cases he
      exact absurd (w.waits_iff.1 hwaits).1 hopened
    · rw [hd] at he
      cases he
      exact hd'
  · obtain ⟨d, hd, ⟨rfl, -⟩ | ⟨rfl, -⟩⟩ := hget d' hd'
    · cases hnone
    · exact hd

theorem offer_opensOnly {calm : Prop} (hw : Sound calm w) (offered : String) (now : Nat) :
    OpensOnly w (w.offer offered now).2 (Opened w (w.offer offered now).2) := by
  rcases w.offer_cases offered now with ⟨he, -⟩ | ⟨s, calls, docs, s', hs, -, hopen, he⟩ <;> rw [he]
  · exact OpensOnly.refl w
  refine OpensOnly.put hs ?_ rfl
  have htells := openAll_tells offered (w.waits offered) now w.documents
    s.takeCapabilitiesChanged.2
  have hnames := names_openAll offered (w.waits offered) now s.takeCapabilitiesChanged.2 w.documents
  simp only [hopen] at htells hnames
  have hn : (Keyed.names docs).Nodup := hnames.symm ▸ hw.documents.nodup
  refine Session.Tells.mono htells fun message hm uri hx => ?_
  obtain ⟨key, d, hd, hu, hnone, hopened⟩ := hm uri hx
  have hget := Keyed.get?_of_mem hw.documents.nodup hd
  have hkey : key = uri := (hw.keyed hget).symm.trans hu
  have hname : s.takeCapabilitiesChanged.2.name = offered := (hw.sessions hs).named
  rw [hkey, hname] at hopened
  exact ⟨d, hkey ▸ hget, hnone, Keyed.get?_of_mem hn hopened⟩

theorem offer_session {offered : String} {now : Nat} {t : Session}
    (h : (w.offer offered now).2.sessions.get? name = some t) :
    ∃ t₀, w.sessions.get? name = some t₀ := by
  rcases w.offer_cases offered now with ⟨he, -⟩ | ⟨s, calls, docs, s', hs, -, -, he⟩
  · rw [he] at h
    exact ⟨t, h⟩
  · rw [he, Keyed.get?_put] at h
    split at h
    · rename_i ho
      exact ⟨s, ho ▸ hs⟩
    · exact ⟨t, h⟩

theorem offerAll_session (now : Nat) (names : List String) {t : Session} :
    ∀ {w : Workspace}, (Workspace.offerAll now names w).2.sessions.get? name = some t →
      ∃ t₀, w.sessions.get? name = some t₀ := by
  induction names with
  | nil =>
    intro w h
    exact ⟨t, h⟩
  | cons offered names ih =>
    intro w h
    obtain ⟨t₁, ht₁⟩ := ih h
    exact offer_session ht₁

theorem offerAll_opensOnly {calm : Prop} (now : Nat) (names : List String) :
    ∀ {w : Workspace}, Sound calm w →
      OpensOnly w (Workspace.offerAll now names w).2
        (Opened w (Workspace.offerAll now names w).2) ∧
      ∀ uri, (∀ d, w.documents.get? uri = some d → d.server ≠ none →
        (Workspace.offerAll now names w).2.documents.get? uri = some d) := by
  induction names with
  | nil =>
    intro w _
    exact ⟨OpensOnly.refl w, fun _ d hd _ => hd⟩
  | cons offered names ih =>
    intro w hw
    have hfirst := offer_opensOnly hw offered now
    have hdocs := fun uri => w.offer_documents offered now uri
    obtain ⟨hrest, hkeep⟩ := ih (hw.offer offered now)
    refine ⟨fun name s t hs ht => ?_, fun uri d hd ho =>
      hkeep uri d ((hdocs uri).1 d hd ho) ho⟩
    obtain ⟨s₁, hs₁⟩ := offerAll_session now names ht
    refine ((hfirst hs hs₁).mono fun message hm uri hx => ?_).trans
      ((hrest hs₁ ht).mono fun message hm uri hx => ?_)
    · obtain ⟨d, hd, hnone, hopened⟩ := hm uri hx
      exact ⟨d, hd, hnone, hkeep uri _ hopened (by simp)⟩
    · obtain ⟨d, hd, hnone, hopened⟩ := hm uri hx
      exact ⟨d, (hdocs uri).2 d hd hnone, hnone, hopened⟩

/-! ## Every operation -/

/-- What a call has opened: a document that it adds, with its text; a document that it was asked
about, with the text that came with the question if the server wants changes; and else a document
with the text that it had. -/
def Opening (w : Workspace) (action : WorkspaceAction) (name uri : String) : Prop :=
  ∃ s d, (w.step action).sessions.get? name = some s ∧
    (w.step action).documents.get? uri = some d ∧ d.server = some name ∧
    ((w.documents.get? uri = none ∧ action.text? uri = some d.text) ∨
      ∃ d₀, w.documents.get? uri = some d₀ ∧
        ((action.asks = false ∧ d.text = d₀.text) ∨
          ∃ text, action.asks = true ∧ action.text? uri = some text ∧
            d.text = if s.wantsChanges d then text else d₀.text))

theorem opens_pumpWhere (hw : Sound True w) (picked : Session → Bool) (visible : String → Bool)
    (now : Nat) : OpensOnly w (w.pumpWhere picked visible now).2.2 fun name uri =>
      ∃ d d₀, (w.pumpWhere picked visible now).2.2.documents.get? uri = some d ∧
        d.server = some name ∧ w.documents.get? uri = some d₀ ∧ d.text = d₀.text := by
  have hn := hw.ordered.nodup
  obtain ⟨hoffers, -⟩ := offerAll_opensOnly now (w.tended picked visible now).sessions.names
    (hw.tended picked visible now)
  intro name s t hs ht
  obtain ⟨s₁, hs₁⟩ := offerAll_session now _ ht
  have hcarries : s.Carries s₁ := by
    obtain ⟨s₀, hs₀, rfl, -⟩ := (get?_tended hn).1 hs₁
    rw [hs] at hs₀
    cases hs₀
    exact (Sound.pumped (hw.sessions hs) picked visible now).2.1
  refine (hcarries.tells.silent _).trans ((hoffers hs₁ ht).mono fun message hm uri hx => ?_)
  obtain ⟨d, hd, -, hopened⟩ := hm uri hx
  obtain ⟨d₀, hd₀, hcases⟩ := get?_tended_documents hn hd
  refine ⟨{ d with server := some name }, d₀, hopened, rfl, hd₀, ?_⟩
  rcases hcases with ⟨rfl, -⟩ | ⟨rfl, -⟩ <;> rfl

theorem opens_openDocument (hw : Sound True w) (hd : d.server = none) (now : Nat) :
    OpensOnly w (w.openDocument d now).2.2 fun name uri => uri = d.uri ∧
      ∃ s e, (w.openDocument d now).2.2.sessions.get? name = some s ∧
        (w.openDocument d now).2.2.documents.get? uri = some e ∧ e.server = some name ∧
        ((w.documents.get? uri = none ∧ e.text = d.text) ∨
          ∃ d₀, w.documents.get? uri = some d₀ ∧ e.text = d₀.text) := by
  have htext : (w.documents.get? d.uri = none ∧ (w.documents.track d).1.text = d.text) ∨
      ∃ d₀, w.documents.get? d.uri = some d₀ ∧ (w.documents.track d).1.text = d₀.text := by
    rcases track_cases w.documents d with ⟨known, hk, he⟩ | ⟨hn, he⟩ <;> rw [he]
    · exact .inr ⟨known, hk, rfl⟩
    · exact .inl ⟨hn, rfl⟩
  have huri := (hw.track hd).keyed (get?_track w.documents d)
  unfold Workspace.openDocument
  generalize w.documents.track d = tracked at htext huri
  obtain ⟨known, docs⟩ := tracked
  simp only at htext huri ⊢
  split
  · exact OpensOnly.refl w
  rename_i name _
  split
  · exact OpensOnly.refl w
  rename_i s hs
  refine OpensOnly.put hs ((s.tells_didOpen known now).mono fun message hm uri hx => ?_) rfl
  obtain ⟨rfl, -, -, hdoc⟩ := hm uri hx
  simp only [hdoc]
  refine ⟨huri, _, _, Keyed.get?_put_self .., Keyed.get?_put_self .., ?_, ?_⟩
  · exact congrArg some (hw.sessions hs).named
  · rw [huri]
    exact htext

theorem opens_ask (hw : Sound True w) (uri text : String) (q : DocumentQuery) (now : Nat) :
    OpensOnly w (w.ask uri text q now).2.2 fun name other => other = uri ∧
      ∃ s d d₀, (w.ask uri text q now).2.2.sessions.get? name = some s ∧
        (w.ask uri text q now).2.2.documents.get? uri = some d ∧ d.server = some name ∧
        w.documents.get? uri = some d₀ ∧
        d.text = if s.wantsChanges d then text else d₀.text := by
  rcases w.ask_cases uri text q now with he | ⟨d, n, s, hd, hfor, hs, -, he⟩ <;> rw [he]
  · exact OpensOnly.refl w
  refine OpensOnly.put hs ((s.tells_ask d text now q).mono fun message hm other hx => ?_) rfl
  obtain ⟨rfl, -, hserver, htext⟩ := hm other hx
  have hop := s.serves_ask d text now q
  have huri := hw.keyed hd
  refine ⟨huri, (s.ask d text q now).2.2, (s.ask d text q now).2.1, d,
    Keyed.get?_put_self .., ?_, ?_, hd, ?_⟩
  · rw [Workspace.store, hop.keeps.uri, huri, Keyed.get?_put_self]
  · rw [hserver, (hw.sessions hs).named]
  · rw [htext, Session.wantsChanges_steady hop.steady hop.stays]

/-- What a call opens, and with which text. -/
theorem opens_step (hw : Sound True w) (action : WorkspaceAction)
    (ho : w.Opens (w.step action) name uri) : w.Opening action name uri := by
  obtain ⟨t, ht⟩ := exists_of_opens ho
  have hpump : ∀ picked visible now, w.step action = (w.pumpWhere picked visible now).2.2 →
      action.asks = false → w.Opening action name uri := by
    intro picked visible now he hasks
    obtain ⟨d, d₀, hd, hserver, hd₀, htext⟩ :=
      (he ▸ opens_pumpWhere hw picked visible now : OpensOnly w (w.step action) _).of_opens ho
    exact ⟨t, d, ht, he ▸ hd, hserver, .inr ⟨d₀, hd₀, .inl ⟨hasks, htext⟩⟩⟩
  have hsilent : OpensOnly w (w.step action) (fun _ _ => False) → w.Opening action name uri :=
    fun h => (h.of_opens ho).elim
  cases action with
  | between c =>
    refine hsilent (OpensOnly.map (fun key s =>
      if key = c.name then { s with connection := c.change s.connection } else s)
      (fun key s => ?_) rfl)
    split
    · exact s.carries_connection _
    · exact .refl s
  | openDocument other path languageId text now =>
    obtain ⟨rfl, s, d, hs, hd, hserver, hcases⟩ := (opens_openDocument hw rfl now).of_opens ho
    refine ⟨s, d, hs, hd, hserver, hcases.imp (fun ⟨hn, htext⟩ => ⟨hn, ?_⟩)
      fun ⟨d₀, hd₀, htext⟩ => ⟨d₀, hd₀, .inl ⟨rfl, htext⟩⟩⟩
    rw [htext]
    exact if_pos rfl
  | changeDocument other text now =>
    exact hsilent (.withOpenDocument other fun s d => s.tells_didChange d text now)
  | saveDocument other text now =>
    exact hsilent (.withOpenDocument other fun s d => s.tells_didSave d text now)
  | closeDocument other text now =>
    exact hsilent (OpensOnly.withOpenDocument other fun s d => s.tells_didClose d text now)
  | documentShown other =>
    exact hsilent (OpensOnly.map (fun _ s => (s.shown other).2)
      (fun _ s => s.carries_shown other) (shownIn_sessions other w.sessions))
  | ask other text q now =>
    obtain ⟨rfl, s, d, d₀, hs, hd, hserver, hd₀, htext⟩ :=
      (opens_ask hw other text q now).of_opens ho
    exact ⟨s, d, hs, hd, hserver, .inr ⟨d₀, hd₀, .inr ⟨text, rfl, if_pos rfl, htext⟩⟩⟩
  | workspaceSymbols languageId query now =>
    refine hsilent ?_
    simp only [step, Workspace.workspaceSymbols]
    split
    · exact OpensOnly.refl w
    split
    · exact OpensOnly.refl w
    rename_i s hs
    exact OpensOnly.put hs ((s.carries_workspaceSymbols query now).tells.silent _) rfl
  | pump visible now => exact hpump _ visible now rfl rfl
  | pumpDue time visible now => exact hpump _ visible now rfl rfl
  | shutdownServer other now =>
    refine hsilent ?_
    simp only [step, Workspace.shutdownServer]
    split
    · exact OpensOnly.refl w
    · rename_i s hs
      exact OpensOnly.put hs ((s.carries_shutdown now).tells.silent _) rfl
  | shutdownAll now rounds last => cases ht

/-! ## The text that was passed last -/

/-- **The text a document is opened with.** When a call has a document opened with a server, the
server has at the end of the call the text that the document has in the workspace. That is the text
that the host passed last for it exactly if the call was a question and the server wants changes,
or the snapshot that the workspace had of the document before, if any, was up to date already. -/
theorem run_opening {sessions : List Session} (h : ∀ s ∈ sessions, s.IsReachable)
    (completion : CompletionSettings) (actions : List WorkspaceAction) (action : WorkspaceAction)
    {name uri : String} :
    let w := (ofSessions sessions completion).run actions
    let w' := (ofSessions sessions completion).run (actions ++ [action])
    w.Opens w' name uri →
      ∃ s d m, w'.sessions.get? name = some s ∧ w'.documents.get? uri = some d ∧
        d.server = some name ∧ s.mirror? = some m ∧ m.get? uri = some (d.version, d.text) ∧
        (latest? uri (actions ++ [action]) = some d.text ↔
          (action.asks = true ∧ s.wantsChanges d = true) ∨
            ∀ d₀, w.documents.get? uri = some d₀ →
              latest? uri (actions ++ [action]) = some d₀.text) := by
  intro w w' ho
  have hw : Sound True w := sound_run actions (sound_ofSessions h completion)
  have hstep : w' = w.step action := by
    simp only [w', w, run_append]
    rfl
  rw [hstep] at ho ⊢
  obtain ⟨s, d, hs, hd, hserver, hcases⟩ := opens_step hw action ho
  have hw' : Sound True (w.step action) := sound_step hw action
  obtain ⟨-, t, ht, hrun⟩ := hw'.attached hd hserver
  rw [hs] at ht
  cases ht
  obtain ⟨m, hm, hget⟩ := (hrun trivial).2
  rw [hw'.keyed hd] at hget
  refine ⟨s, d, m, hs, hd, hserver, hm, hget, ?_⟩
  rw [latest?_append]
  rcases hcases with ⟨hnone, htext⟩ | ⟨d₀, hd₀, ⟨hasks, htext⟩ | ⟨text, hasks, hpassed, htext⟩⟩
  · simp [htext, hnone]
  · simp [hasks, htext, hd₀]
  · by_cases hwants : s.wantsChanges d <;> simp [hasks, hpassed, htext, hd₀, hwants]

theorem run_opening_deferred :
    let before := [.openDocument "file:///a.py" none "python" "a\n" 0, greets]
    let w := (ofSessions [unanswered] .standard).run before
    let w' := (ofSessions [unanswered] .standard).run (before ++ [.pump (fun _ => true) 0])
    w.Opens w' "srv" "file:///a.py" ∧
      ∃ s d m, w'.sessions.get? "srv" = some s ∧ w'.documents.get? "file:///a.py" = some d ∧
        s.mirror? = some m ∧ m.get? "file:///a.py" = some (d.version, d.text) ∧
        latest? "file:///a.py" (before ++ [.pump (fun _ => true) 0]) = some d.text := by
  intro before w w'
  have ho : w.Opens w' "srv" "file:///a.py" := by decide +kernel
  obtain ⟨s, d, m, hs, hd, -, hm, hget, htext⟩ :=
    run_opening unanswered_reachable .standard before (.pump (fun _ => true) 0) ho
  refine ⟨ho, s, d, m, hs, hd, hm, hget, htext.2 (.inr fun d₀ hd₀ => ?_)⟩
  have hnew : w.documents.get? "file:///a.py" =
      some (.new "file:///a.py" none "python" "a\n") := by decide +kernel
  rw [hnew] at hd₀
  cases hd₀
  decide

/-- A text that is passed between the adding of a document and the end of the handshake is lost:
the document is opened with the text it was added with. -/
theorem edit_lost :
    let before := [.openDocument "file:///a.py" none "python" "a\n" 0,
      .changeDocument "file:///a.py" "b\n" 0, greets]
    let w := (ofSessions [unanswered] .standard).run before
    let w' := (ofSessions [unanswered] .standard).run (before ++ [.pump (fun _ => true) 0])
    w.Opens w' "srv" "file:///a.py" ∧
      latest? "file:///a.py" (before ++ [.pump (fun _ => true) 0]) = some "b\n" ∧
      ((w'.sessions.get? "srv").bind Session.mirror?).bind (Keyed.get? "file:///a.py") =
        some (1, "a\n") := by
  decide +kernel

end Workspace

end LanguageClient
