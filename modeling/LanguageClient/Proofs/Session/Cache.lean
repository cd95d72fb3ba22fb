import LanguageClient.Proofs.Session.Agreement
import LanguageClient.Proofs.Session.Arrivals
import Mathlib.Data.List.Induction

/-!
# The last completion answer and its document

A session keeps the last completion answer that came (`Session.answered?`).
While it is kept, its document stays with the session if it was open with it
when the answer came: closing the document drops the answer. An answer that
comes after its document was closed is kept all the same.

* `Caches`, `pump_cache`: what a pump does to the answer that is kept.
* `cache_step`: where an answer that is kept comes from.
* `run_cache`: the answer that is kept is always about an open document
  exactly if every answer comes while its document is open.
-/
namespace LanguageClient

/-! ## Completion answers -/

/-- An answer is the one to the completion request with an id and a context. -/
structure CompletionCache.Answers (c : CompletionCache) (id : Int) (context : RequestContext) :
    Prop where
  requestId : c.requestId = .number id
  uri : c.uri = context.uri
  origin : c.origin = context.position
  originPrefix : c.originPrefix = context.linePrefix

/-- The completion request that an event answers. -/
def ClientEvent.completion? : ClientEvent RequestContext → Option (Int × RequestContext)
  | .response id method _ (some context) =>
    if method = Method.completion then some (id, context) else none
  | _ => none

namespace Client

/-- The completion request that a body answers. -/
def completes? (c : Client RequestContext) (body : List UInt8) : Option (Int × RequestContext) :=
  match Incoming.decode body with
  | .ok (.response id (.ok _)) =>
    (id.number?.bind c.pending?).bind fun p =>
      if p.method = Method.completion then p.context.map fun context => (p.id, context) else none
  | _ => none

/-- The completion requests that several bodies answer. -/
def completions (c : Client RequestContext) : List (List UInt8) → List (Int × RequestContext)
  | [] => []
  | body :: bodies => (c.completes? body).toList ++ (c.receive body).2.completions bodies

theorem completions_receive (c : Client RequestContext) (body : List UInt8) :
    (c.receive body).1.filterMap ClientEvent.completion? = (c.completes? body).toList := by
  unfold completes?
  cases h : Incoming.decode body with
  | error e =>
    rw [receive, h]
    rfl
  | ok m =>
    cases m with
    | response id outcome =>
      rw [receive_of_response h]
      cases hp : id.number?.bind c.pending? with
      | none =>
        rw [onResponse_of_none outcome hp]
        cases outcome <;> simp [hp]
      | some p =>
        rw [onResponse_of_some outcome hp]
        have hother : p.method = Method.start ∨ p.method = Method.shutdown →
            p.method ≠ Method.completion := by
          rintro (hm | hm) <;> rw [hm] <;> decide
        rcases (c.without p).settle_cases p outcome with
          ⟨result, hm, rfl, he⟩ | ⟨e, hm, rfl, he⟩ | ⟨hm, he⟩ | ⟨result, -, -, rfl, he⟩ |
            ⟨e, -, -, rfl, he⟩ <;> rw [he]
        · rw [((c.without p).finishHandshake_cases result).1]
          simp [hp, hother (.inl hm), ClientEvent.completion?]
        · simp [ClientEvent.completion?]
        · cases outcome <;> simp [hp, hother (.inr hm), ClientEvent.completion?]
        · cases hc : p.context with
          | none => simp [hp, hc, ClientEvent.completion?]
          | some context =>
            by_cases hm : p.method = Method.completion <;>
              simp [hp, hc, hm, ClientEvent.completion?]
        · simp [ClientEvent.completion?]
    | request id r =>
      rw [receive_of_request h]
      cases r <;> rfl
    | notification note =>
      rw [receive, h]
      cases note <;> rfl

/-- Receiving asks nothing about a document. -/
theorem pending_receive (c : Client RequestContext) (body : List UInt8) :
    ∀ p ∈ (c.receive body).2.pending, p.context.isSome = true → p ∈ c.pending := by
  intro p hp hc
  rcases c.receive_cases body with ⟨id, outcome, -, he⟩ | ⟨id, r, -, he⟩ | ⟨-, he, -⟩ <;>
    rw [he] at hp
  · cases hw : id.number?.bind c.pending? with
    | none => rwa [c.onResponse_of_none outcome hw] at hp
    | some q =>
      rw [c.onResponse_of_some outcome hw] at hp
      have hwithout : ∀ x ∈ (c.without q).pending, x ∈ c.pending :=
        fun _ hx => (List.mem_filter.1 hx).1
      rcases (c.without q).settle_cases q outcome with
        ⟨result, -, -, he⟩ | ⟨e, -, -, he⟩ | ⟨-, he⟩ | ⟨result, -, -, -, he⟩ |
          ⟨e, -, -, -, he⟩ <;> rw [he] at hp
      · obtain ⟨-, ⟨-, he⟩ | ⟨-, he⟩⟩ := (c.without q).finishHandshake_cases result <;>
          rw [he] at hp
        · exact hwithout p hp
        · rcases List.mem_append.1 hp with hp | hp
          · exact hwithout p hp
          · rw [List.mem_singleton.1 hp] at hc
            cases hc
      · exact hwithout p (Session.mem_pending_exit hp)
      · exact hwithout p (Session.mem_pending_exit hp)
      · exact hwithout p hp
      · exact hwithout p hp
  · by_cases hs : c.state = .exited
    · rwa [c.onServerRequest_of_exited id r hs] at hp
    · rwa [c.onServerRequest_of_ne id r hs] at hp
  · exact hp

theorem pending_receiveAll (bodies : List (List UInt8)) :
    ∀ (c : Client RequestContext), ∀ p ∈ (c.receiveAll bodies).pending,
      p.context.isSome = true → p ∈ c.pending := by
  induction bodies with
  | nil => exact fun _ _ hp _ => hp
  | cons body bodies ih => exact fun c p hp hc => c.pending_receive body p (ih _ p hp hc) hc

/-- Only a request that waits is answered. -/
theorem waiting_of_completions (bodies : List (List UInt8)) {id : Int} {context : RequestContext} :
    ∀ {c : Client RequestContext}, (id, context) ∈ c.completions bodies →
      ⟨id, Method.completion, some context⟩ ∈ c.pending := by
  induction bodies with
  | nil => exact fun h => by cases h
  | cons body bodies ih =>
    intro c h
    rcases List.mem_append.1 h with h | h
    · rw [Option.mem_toList] at h
      unfold completes? at h
      split at h
      · obtain ⟨p, hp, h⟩ := Option.bind_eq_some_iff.1 h
        obtain ⟨n, -, hp⟩ := Option.bind_eq_some_iff.1 hp
        have hmem := (id_of_pending? hp).2
        split at h <;> rename_i hm
        · obtain ⟨context', hc, h⟩ := Option.map_eq_some_iff.1 h
          obtain ⟨pid, pmethod, pcontext⟩ := p
          simp only at hm hc
          cases h
          subst hm hc
          exact hmem
        · cases h
      · cases h
    · exact c.pending_receive body _ (ih h) rfl

end Client

/-! ## The answer that is kept -/

namespace Session

/-- The completion request that is answered last in a pump. -/
def answered? (s : Session) : Option (Int × RequestContext) :=
  (s.client.completions s.arrivals).getLast?

/-- An operation that takes some completion answers in keeps the last of them. -/
def Caches (s s' : Session) (answers : List (Int × RequestContext)) : Prop :=
  (answers = [] ∧ s'.cache = s.cache) ∨
    ∃ before id context c, answers = before ++ [(id, context)] ∧ s'.cache = some c ∧
      c.Answers id context

variable {s s' s'' : Session}

theorem Caches.trans {answers more : List (Int × RequestContext)} (h : Caches s s' answers)
    (h' : Caches s' s'' more) : Caches s s'' (answers ++ more) := by
  rcases h' with ⟨rfl, h'⟩ | ⟨before, id, context, c, rfl, h', hc⟩
  · rw [List.append_nil]
    rcases h with ⟨ha, h⟩ | ⟨before, id, context, c, ha, h, hc⟩
    · exact .inl ⟨ha, h'.trans h⟩
    · exact .inr ⟨before, id, context, c, ha, h'.trans h, hc⟩
  · exact .inr ⟨answers ++ before, id, context, c, (List.append_assoc ..).symm, h', hc⟩

theorem caches_onEvent (s : Session) (visible : String → Bool)
    (event : ClientEvent RequestContext) :
    Caches s (s.onEvent visible event).2 event.completion?.toList := by
  cases event with
  | response id method result context =>
    cases context with
    | none => exact .inl ⟨rfl, rfl⟩
    | some context =>
      by_cases hm : method = Method.completion
      · refine .inr ⟨[], id, context,
          .ofList (.number id) context.uri context.position context.linePrefix
            (Answers.completionList result) s.completion.words,
          by simp [ClientEvent.completion?, hm], ?_, ⟨rfl, rfl, rfl, rfl⟩⟩
        simp only [onEvent, onAnswer, if_pos hm]
      · refine .inl ⟨by simp [ClientEvent.completion?, hm], ?_⟩
        simp only [onEvent, onAnswer, if_neg hm]
        repeat' split
        all_goals rfl
  | notification note =>
    cases note with
    | logMessage kind text =>
      refine .inl ⟨rfl, ?_⟩
      simp only [onEvent, onNotification]
      split <;> rfl
    | _ => exact .inl ⟨rfl, rfl⟩
  | _ => exact .inl ⟨rfl, rfl⟩

theorem caches_onEvents (visible : String → Bool) (events : List (ClientEvent RequestContext)) :
    ∀ s : Session, Caches s (s.onEvents visible events).2
      (events.filterMap ClientEvent.completion?) := by
  induction events with
  | nil => exact fun s => .inl ⟨rfl, rfl⟩
  | cons event events ih =>
    intro s
    rw [List.filterMap_eq_flatMap_toList, List.flatMap_cons, ← List.filterMap_eq_flatMap_toList]
    exact (s.caches_onEvent visible event).trans (ih _)

theorem caches_onBodies (visible : String → Bool) (bodies : List (List UInt8)) :
    ∀ s : Session, Caches s (onBodies visible bodies s).2 (s.client.completions bodies) := by
  induction bodies with
  | nil => exact fun s => .inl ⟨rfl, rfl⟩
  | cons body bodies ih =>
    intro s
    have hbody : Caches s (s.onBody visible body).2 (s.client.completes? body).toList := by
      rw [← s.client.completions_receive body]
      exact caches_onEvents visible (s.client.receive body).1
        { s with client := (s.client.receive body).2 }
    have hrest := ih (s.onBody visible body).2
    rw [(s.hears_onBody visible body).client] at hrest
    exact hbody.trans hrest

/-- A pump keeps the completion answer that came last; a session that is torn down keeps none. -/
theorem pump_cache (s : Session) (visible : String → Bool) (now : Nat) :
    (s.answered? = none ∧ ((s.pump visible now).2.2.cache = s.cache ∨
        (s.pump visible now).2.2.cache = none)) ∨
      ∃ id context, s.answered? = some (id, context) ∧
        (((s.pump visible now).2.2.tornDown = true ∧ (s.pump visible now).2.2.cache = none) ∨
          ((s.pump visible now).2.2.tornDown = false ∧
            ∃ c, (s.pump visible now).2.2.cache = some c ∧ c.Answers id context)) := by
  cases hs : s.tornDown with
  | true =>
    rw [pump_of_tornDown hs]
    exact .inl ⟨by simp [answered?, arrivals, hs, Client.completions], .inl rfl⟩
  | false =>
    obtain ⟨t, hunheard, ht, hpump⟩ := pump_cases hs visible now
    have hcaches := caches_onBodies visible s.arrivals s
    rcases hcaches with ⟨ha, hc⟩ | ⟨before, id, context, c, ha, hc, hanswers⟩
    · refine .inl ⟨by rw [answered?, ha]; rfl, ?_⟩
      rcases hpump with he | ⟨name, he⟩ <;> rw [he]
      · exact .inl (hunheard.cache.trans hc)
      · exact .inr (t.tearDown_heard now).2.1
    · refine .inr ⟨id, context, by rw [answered?, ha, List.getLast?_concat], ?_⟩
      rcases hpump with he | ⟨name, he⟩ <;> rw [he]
      · exact .inr ⟨ht, c, hunheard.cache.trans hc, hanswers⟩
      · exact .inl ⟨rfl, (t.tearDown_heard now).2.1⟩

/-- What is answered in a pump waited before. -/
theorem waiting_of_answered? {id : Int} {context : RequestContext}
    (h : s.answered? = some (id, context)) :
    ⟨id, Method.completion, some context⟩ ∈ s.client.pending :=
  Client.waiting_of_completions s.arrivals (List.mem_of_getLast? h)

/-! ## Documents that stay open -/

variable (s : Session) (d : Document) (text : String) (now : Nat)

theorem didOpen_of_open (h : d.isOpen = true) : s.didOpen d now = (.ok false, d, s) := by
  simp [didOpen, h]

end Session

/-! ## Runs -/

namespace Desk

/-- Whether the document with a uri is open with the session. -/
def holds (k : Desk) (uri : String) : Bool :=
  (k.documents.get? uri).any k.session.holds

variable {k : Desk} {uri other : String}

theorem holds_iff : k.holds uri = true ↔
    ∃ d, k.documents.get? uri = some d ∧ d.server = some k.session.name := by
  unfold holds
  cases k.documents.get? uri <;> simp [Session.holds]

theorem holds_congr {k' : Desk} (hd : k'.documents.get? uri = k.documents.get? uri)
    (hn : k'.session.name = k.session.name) : k'.holds uri = k.holds uri := by
  unfold holds Session.holds
  rw [hd, hn]

theorem holds_place (d : Document) (h : k.holds uri = true) : (k.place d).holds uri = true := by
  unfold place
  split
  · exact h
  · rename_i hn
    have hu : uri ≠ d.uri := by
      rintro rfl
      exact hn (.inr h)
    have hput : ({ k with documents := k.documents.put d.uri d } : Desk).holds uri = k.holds uri :=
      holds_congr (Keyed.get?_put_of_ne _ _ hu) rfl
    exact hput.trans h

/-- An operation that leaves open documents with their servers. -/
theorem holds_onDocument {op : Session → Document → Document × Session}
    (hn : ∀ s d, (op s d).2.name = s.name)
    (hop : ∀ s d, d.isOpen = true → (op s d).1.server = d.server) (h : k.holds uri = true) :
    (k.onDocument other op).holds uri = true := by
  unfold onDocument
  split
  · exact h
  rename_i d hd
  by_cases hu : uri = other
  · subst hu
    obtain ⟨d', hd', hserver⟩ := holds_iff.1 h
    obtain rfl := Option.some.inj (hd.symm.trans hd')
    refine holds_iff.2 ⟨_, Keyed.get?_put_self .., ?_⟩
    rw [hop _ _ (by rw [Document.isOpen, hserver]; rfl), hserver, hn]
  · rwa [holds_congr (Keyed.get?_put_of_ne _ _ hu) (hn ..)]

/-- Only closing a document takes it from the session. -/
theorem holds_step {action : DeskAction} (h : ∀ other text now, action ≠ .didClose other text now)
    (hk : k.holds uri = true) : (k.step action).holds uri = true := by
  have kept {k' : Desk} (hd : k'.documents = k.documents)
      (hn : k'.session.name = k.session.name) : k'.holds uri = true := by
    rwa [holds_congr (by rw [hd]) hn]
  cases action with
  | between connection => exact kept rfl rfl
  | place d => exact holds_place d hk
  | pump visible now => exact kept rfl (k.session.carries_pump visible now).name
  | didOpen other now =>
    exact holds_onDocument (fun s d => (s.steady_didOpen d now).1.name)
      (fun s d hd => by rw [s.didOpen_of_open d now hd]) hk
  | didChange other text now =>
    exact holds_onDocument (fun s d => (s.steady_didChange d text now).1.name)
      (fun s d _ => (s.keeps_didChange d text now).2) hk
  | didSave other text now =>
    exact holds_onDocument (fun s d => (s.steady_didSave d text now).1.name)
      (fun s d _ => s.server_didSave d text now) hk
  | didClose other text now => exact absurd rfl (h other text now)
  | ask other text q now =>
    exact holds_onDocument (fun s d => (s.steady_ask d text now q).1.name)
      (fun s d hd => (s.server_ask d text now q).resolve_right fun hx => by
        simp [Document.isOpen, hx.1] at hd) hk
  | workspaceSymbols query now =>
    exact kept rfl (k.session.steady_workspaceSymbols now query).name
  | shown other => exact kept rfl (k.session.steady_shown other).name
  | takeCapabilitiesChanged => exact kept rfl rfl
  | shutdown now => exact kept rfl (k.session.carries_shutdown now).name
  | kill now => exact kept rfl (k.session.carries_kill now).name

/-- A document that is closed is not the one of the completion answer that is kept. -/
theorem cache_didClose {name : String} (hk : Agrees name k) (text : String) (now : Nat)
    {c : CompletionCache}
    (hc : (k.step (.didClose other text now)).session.cache = some c) :
    k.session.cache = some c ∧
      (k.holds c.uri = true → (k.step (.didClose other text now)).holds c.uri = true) := by
  simp only [step, onDocument] at hc ⊢
  split at hc
  · exact ⟨hc, fun h => h⟩
  rename_i d hd
  have hname := (k.session.steady_didClose d text now).1.name
  have hkept : ∀ {uri}, uri ≠ other → k.holds uri = true →
      (⟨(k.session.didClose d text now).2.2,
        k.documents.put other (k.session.didClose d text now).2.1⟩ : Desk).holds uri = true :=
    fun hu h => by rwa [holds_congr (Keyed.get?_put_of_ne _ _ hu) hname]
  rcases Session.didClose_unheard (P := fun _ => False) k.session d text now with
    ⟨hserver, h⟩ | ⟨-, s₁, h, he⟩
  · refine ⟨h.cache.symm.trans hc, fun hh => ?_⟩
    by_cases hu : c.uri = other
    · rw [hu] at hh ⊢
      obtain ⟨d', hd', hd''⟩ := holds_iff.1 hh
      obtain rfl := Option.some.inj (hd.symm.trans hd')
      exact holds_iff.2 ⟨_, Keyed.get?_put_self .., by rw [hserver, hd'', hname]⟩
    · exact hkept hu hh
  · rw [he, Session.dropCache] at hc
    split at hc <;> rename_i hany
    · cases hc
    · have hu : c.uri ≠ other := fun hu => hany (by
        rw [show s₁.cache = some c from hc]
        simp [hu, hk.keyed other d hd])
      exact ⟨h.cache.symm.trans hc, hkept hu⟩

/-- A completion answer that is kept was kept before, and its document has stayed open, or it is
the last one that came in a pump. -/
theorem cache_step {name : String} (hk : Agrees name k) (action : DeskAction) {c : CompletionCache}
    (hc : (k.step action).session.cache = some c) :
    (k.session.cache = some c ∧ (k.holds c.uri = true → (k.step action).holds c.uri = true)) ∨
      ∃ visible now id context, action = .pump visible now ∧
        k.session.answered? = some (id, context) ∧ c.Answers id context ∧
        (k.session.pump visible now).2.2.tornDown = false := by
  cases action with
  | pump visible now =>
    have hkept : k.holds c.uri = true → (k.step (.pump visible now)).holds c.uri = true :=
      holds_step (by simp)
    rcases k.session.pump_cache visible now with ⟨-, he | he⟩ | ⟨id, context, ha, hcache⟩
    · exact .inl ⟨he.symm.trans hc, hkept⟩
    · exact absurd (he.symm.trans hc) (by simp)
    · rcases hcache with ⟨-, he⟩ | ⟨ht, c', he, hanswers⟩
      · exact absurd (he.symm.trans hc) (by simp)
      · obtain rfl := Option.some.inj (he.symm.trans hc)
        exact .inr ⟨visible, now, id, context, rfl, ha, hanswers, ht⟩
  | didClose uri text now => exact .inl (cache_didClose hk text now hc)
  | shown uri =>
    refine .inl ⟨?_, holds_step (by simp)⟩
    rw [← hc]
    simp only [step, Session.shown]
    split <;> rfl
  | kill now =>
    refine .inl ⟨?_, holds_step (by simp)⟩
    rcases (k.session.kill_heard now).2.1 with he | he
    · exact (congrArg Session.cache he).symm.trans hc
    · exact absurd (he.symm.trans hc) (by simp)
  | _ => exact .inl ⟨(k.unheard_step rfl).cache.symm.trans hc, holds_step (by simp)⟩

theorem run_concat (k : Desk) (actions : List DeskAction) (action : DeskAction) :
    k.run (actions ++ [action]) = (k.run actions).step action := by
  simp [run, List.foldl_append]

theorem holds_pump (visible : String → Bool) (now : Nat) :
    (k.step (.pump visible now)).holds uri = k.holds uri :=
  holds_congr rfl (k.session.carries_pump visible now).name

/-- A completion answer that is kept came last in some pump and was kept ever since, and if its
document was open then it has stayed open. -/
theorem cache_run {name : String} (hk : Agrees name k) (hnone : k.session.cache = none)
    (actions : List DeskAction) : ∀ {c : CompletionCache},
    (k.run actions).session.cache = some c →
      ∃ before visible now after id context, actions = before ++ .pump visible now :: after ∧
        (k.run before).session.answered? = some (id, context) ∧ c.Answers id context ∧
        ((k.run before).session.pump visible now).2.2.tornDown = false ∧
        ∀ mid, mid <+: after →
          (k.run (before ++ .pump visible now :: mid)).session.cache = some c ∧
            ((k.run before).holds c.uri = true →
              (k.run (before ++ .pump visible now :: mid)).holds c.uri = true) := by
  induction actions using List.reverseRecOn with
  | nil =>
    intro c hc
    exact absurd (hnone.symm.trans hc) (by simp)
  | append_singleton actions action ih =>
    intro c hc
    have hlast := hc
    rw [run_concat] at hlast
    rcases cache_step (agrees_run actions hk) action hlast with
      ⟨hc', hholds⟩ | ⟨visible, now, id, context, rfl, ha, hanswers, ht⟩
    · obtain ⟨before, visible, now, after, id, context, rfl, ha, hanswers, ht, hsince⟩ := ih hc'
      refine ⟨before, visible, now, after ++ [action], id, context, by simp, ha, hanswers, ht,
        fun mid hmid => ?_⟩
      rcases List.prefix_concat_iff.1 hmid with rfl | hmid
      · rw [← List.cons_append, ← List.append_assoc]
        refine ⟨hc, fun hb => ?_⟩
        rw [run_concat]
        exact hholds ((hsince after (List.prefix_refl _)).2 hb)
      · exact hsince mid hmid
    · refine ⟨actions, visible, now, [], id, context, rfl, ha, hanswers, ht, fun mid hmid => ?_⟩
      obtain rfl := List.prefix_nil.1 hmid
      refine ⟨hc, fun hb => ?_⟩
      rw [run_concat, holds_pump]
      exact hb

/-- **The completion answer and its document.** Whatever is done with a session and whatever comes
in: the completion answer that it keeps came last in some pump, was kept ever since, and its
document has stayed open if it was open then. So the answer is always about an open document
exactly if no answer comes for a document that is not open. -/
theorem run_cache (name : String) (connection : Connection) (options : ClientOptions)
    (completion : CompletionSettings) (processId now : Nat) (actions : List DeskAction) :
    let k := start name connection options completion processId now
    (∀ c, (k.run actions).session.cache = some c →
      ∃ before visible time after id context, actions = before ++ .pump visible time :: after ∧
        (k.run before).session.answered? = some (id, context) ∧ c.Answers id context ∧
        ((k.run before).session.pump visible time).2.2.tornDown = false ∧
        ∀ mid, mid <+: after →
          (k.run (before ++ .pump visible time :: mid)).session.cache = some c ∧
            ((k.run before).holds c.uri = true →
              (k.run (before ++ .pump visible time :: mid)).holds c.uri = true)) ∧
      ((∀ mid, mid <+: actions → ∀ c, (k.run mid).session.cache = some c →
          (k.run mid).holds c.uri = true) ↔
        ∀ before visible time, before ++ [.pump visible time] <+: actions → ∀ id context,
          (k.run before).session.answered? = some (id, context) →
          ((k.run before).session.pump visible time).2.2.tornDown = false →
          (k.run before).holds context.uri = true) := by
  intro k
  have hk : Agrees name k := agrees_start ..
  have hnone : k.session.cache = none := (Session.flush_heard _ now).2.1
  refine ⟨fun c hc => cache_run hk hnone actions hc, ⟨fun h => ?_, fun h => ?_⟩⟩
  · intro before visible time hpre id context ha ht
    rcases (k.run before).session.pump_cache visible time with
      ⟨hx, -⟩ | ⟨id', context', ha', ⟨hx, -⟩ | ⟨-, c, hc, hanswers⟩⟩
    · exact absurd (hx.symm.trans ha) (by simp)
    · exact absurd (hx.symm.trans ht) (by simp)
    · cases ha'.symm.trans ha
      have hopen := h _ hpre c (by rw [run_concat]; exact hc)
      rwa [run_concat, holds_pump, hanswers.uri] at hopen
  · intro mid hmid c hc
    obtain ⟨before, visible, time, after, id, context, rfl, ha, hanswers, ht, hsince⟩ :=
      cache_run hk hnone mid hc
    refine (hsince after (List.prefix_refl _)).2 ?_
    rw [hanswers.uri]
    refine h before visible time (List.IsPrefix.trans ?_ hmid) id context ha ht
    exact ⟨after, by simp⟩

/-! ## A document that is closed before its answer comes -/

/-- The answer of a server that wants to be told of documents and completes. -/
def completes : List UInt8 :=
  (Outgoing.reply (.number 1) (.ok (.obj
    [("capabilities", .obj [("textDocumentSync", .int 1), ("completionProvider", .obj [])])]))).body

/-- The answer to the first completion request. -/
def completed : List UInt8 :=
  (Outgoing.reply (.number 2) (.ok (.arr [.obj [("label", .str "foo")]]))).body

/-- A document is closed between a completion request about it and the answer. -/
def closedBetween : Desk :=
  (start "srv" (.opened .reject) ⟨["python"], none, none, .null⟩ .standard 1 0).run
    [.between { Connection.opened .reject with inbound := [.frame ⟨[], [], completes⟩] },
      .pump (fun _ => true) 0, .place (.new "file:///a.py" none "python" "fo"),
      .didOpen "file:///a.py" 0, .ask "file:///a.py" "fo" (.completion ⟨0, 2⟩ "fo") 0,
      .didClose "file:///a.py" "fo" 0,
      .between { Connection.opened .reject with inbound := [.frame ⟨[], [], completed⟩] },
      .pump (fun _ => true) 0]

/-- The answer is kept for a document that is closed, and serves when it is opened again. -/
theorem cache_outlives :
    closedBetween.session.cache.map CompletionCache.uri = some "file:///a.py" ∧
      closedBetween.holds "file:///a.py" = false ∧
      let k := closedBetween.step (.didOpen "file:///a.py" 0)
      k.holds "file:///a.py" = true ∧
        ((k.documents.get? "file:///a.py").bind fun d =>
          k.session.cached? d (.completion ⟨0, 2⟩ "fo")).isSome = true := by
  decide +kernel

end Desk

end LanguageClient
