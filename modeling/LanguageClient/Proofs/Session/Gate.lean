import LanguageClient.Proofs.Session.Cache

/-!
# Requests that the server has

A request about a document is sent if the server has its method for the
document, and a request that it does not have leaves everything as it was.
An answer that is kept serves before anybody looks what the server has: it
serves on when the server has the method no more. It was asked for when the
server had it (`pending_run`, `cache_asked`).

* `send_cases`, `ask_sent`, `ask_unsupported_iff`: the outcomes of a request.
* `run_gated`: a request is granted only if the server has its method,
  exactly if no kept answer serves in its place.
-/
namespace LanguageClient

/-- Whether an outcome brings an answer, now or later. -/
def RequestOutcome.isGranted : RequestOutcome → Bool
  | .sent _ => true
  | .cached _ => true
  | .unsupported => false

namespace Session

variable (s : Session) (d : Document) (text : String) (now : Nat) (q : DocumentQuery)

/-- Whether the server has a document or can be given it. -/
def canHold : Bool :=
  s.holds d || !d.isOpen && s.supports Method.didOpen d

/-- Whether the server has the method of a request for a document, and can have the document. -/
def accepts : Bool :=
  s.supports q.method d && s.canHold d

theorem ensureOpen_cases :
    (s.canHold d = false ∧ s.ensureOpen d now = (.ok false, d, s)) ∨
    (s.canHold d = true ∧ (s.ensureOpen d now).1 ≠ .ok false) := by
  unfold ensureOpen canHold didOpen
  cases s.holds d with
  | true => exact .inr ⟨rfl, by simp⟩
  | false =>
    cases d.isOpen with
    | true => exact .inl ⟨rfl, rfl⟩
    | false =>
      cases s.supports Method.didOpen d with
      | false => exact .inl ⟨rfl, rfl⟩
      | true =>
        refine .inr ⟨rfl, ?_⟩
        simp only [Bool.not_true, Bool.or_self, Bool.false_eq_true, if_false]
        split <;> simp

/-- A request is refused without a trace if the server does not accept it, and else it is sent or
fails. -/
theorem send_cases :
    (s.accepts d q = false ∧ s.send d text q now = (.ok .unsupported, d, s)) ∨
    (s.accepts d q = true ∧ ((∃ id, (s.send d text q now).1 = .ok (.sent id)) ∨
      ∃ e, (s.send d text q now).1 = .error e)) := by
  unfold send accepts
  by_cases hs : s.supports q.method d
  · simp only [hs, Bool.not_true, Bool.false_eq_true, if_false, Bool.true_and]
    rcases s.ensureOpen_cases d now with ⟨ha, he⟩ | ⟨ha, he⟩
    · exact .inl ⟨ha, by rw [he]⟩
    · refine .inr ⟨ha, ?_⟩
      generalize s.ensureOpen d now = opened at he ⊢
      obtain ⟨r, d₁, s₁⟩ := opened
      rcases r with e | _ | _
      · exact .inr ⟨e, rfl⟩
      · exact absurd rfl he
      simp only
      generalize s₁.didChange d₁ text now = changed
      obtain ⟨r, d₂, s₂⟩ := changed
      cases r with
      | error e => exact .inr ⟨e, rfl⟩
      | ok _ =>
        simp only
        split
        · exact .inr ⟨_, rfl⟩
        · exact .inl ⟨_, rfl⟩
  · exact .inl ⟨by simp [hs], by simp [hs]⟩

variable {s d text now q}

theorem ask_of_cached {items : List CompletionItem} (h : s.cached? d q = some items) :
    s.ask d text q now = (.ok (.cached items), d, s) := by
  rw [ask, h]

theorem ask_of_not_cached (h : s.cached? d q = none) :
    s.ask d text q now = s.send d text q now := by
  rw [ask, h]

/-- What is granted without a kept answer is granted because the server has the method. -/
theorem supports_of_granted (h : s.cached? d q = none) {outcome : RequestOutcome}
    (ho : (s.ask d text q now).1 = .ok outcome) (hg : outcome.isGranted = true) :
    s.supports q.method d = true := by
  rw [ask_of_not_cached h] at ho
  rcases s.send_cases d text now q with ⟨-, he⟩ | ⟨ha, -⟩
  · rw [he] at ho
    cases ho
    cases hg
  · exact (Bool.and_eq_true_iff.1 ha).1

/-- A request is refused exactly if no kept answer serves and the server does not accept it. -/
theorem ask_unsupported_iff :
    (s.ask d text q now).1 = .ok .unsupported ↔ s.cached? d q = none ∧ s.accepts d q = false := by
  cases h : s.cached? d q with
  | some items =>
    rw [ask_of_cached h]
    simp
  | none =>
    rw [ask_of_not_cached h]
    rcases s.send_cases d text now q with ⟨ha, he⟩ | ⟨ha, ⟨id, he⟩ | ⟨e, he⟩⟩ <;> simp [he, ha]

/-- A request that is refused leaves everything as it was. -/
theorem ask_of_unsupported (h : (s.ask d text q now).1 = .ok .unsupported) :
    (s.ask d text q now).2 = (d, s) := by
  obtain ⟨hc, ha⟩ := ask_unsupported_iff.1 h
  rw [ask_of_not_cached hc]
  rcases s.send_cases d text now q with ⟨-, he⟩ | ⟨ha', -⟩
  · rw [he]
  · exact absurd (ha'.symm.trans ha) (by simp)

/-- What serves in place of an answer is the completion answer that is kept. -/
theorem cached?_cases {items : List CompletionItem} (h : s.cached? d q = some items) :
    ∃ c position linePrefix, q = .completion position linePrefix ∧ s.cache = some c ∧
      c.canReuse d.uri position linePrefix s.completion.words = true ∧
      items = c.refilter linePrefix s.completion.words := by
  cases q with
  | completion position linePrefix =>
    obtain ⟨c, hc, h⟩ := Option.bind_eq_some_iff.1 h
    split at h
    · rename_i hr
      exact ⟨c, position, linePrefix, rfl, hc, hr, (Option.some.inj h).symm⟩
    · cases h
  | _ => cases h

end Session

/-! ## What was asked -/

namespace Desk

variable {k : Desk}

/-- A request about a document waits only if it was asked. -/
theorem pending_step (k : Desk) (action : DeskAction) :
    ∀ p ∈ (k.step action).session.client.pending, p.context.isSome = true →
      p ∈ k.session.client.pending ∨ k.Asks action p := by
  intro p hp hc
  cases action with
  | pump visible now =>
    left
    cases hs : k.session.tornDown with
    | true =>
      simp only [step, Session.pump_of_tornDown hs] at hp
      exact hp
    | false =>
      obtain ⟨t, hunheard, -, hpump⟩ := Session.pump_cases hs visible now
      have ht : p ∈ t.client.pending := by
        simp only [step] at hp
        rcases hpump with he | ⟨name, he⟩ <;> rw [he] at hp
        · exact hp
        · exact (t.tearDown_heard now).2.2.1 ▸ hp
      have htaken := (hunheard.pending p ht hc).resolve_right id
      rw [show (k.session.taken visible).2.client = k.session.client.receiveAll k.session.arrivals
        from (Session.hears_onBodies visible k.session.arrivals k.session).client] at htaken
      exact Client.pending_receiveAll _ _ p htaken hc
  | didClose uri text now =>
    left
    simp only [step, onDocument] at hp
    split at hp
    · exact hp
    · rcases Session.didClose_unheard (P := fun _ => False) k.session _ text now with
        ⟨-, h⟩ | ⟨-, s₁, h, he⟩
      · exact (h.pending p hp hc).resolve_right id
      · simp only [he, Session.dropCache] at hp
        refine (h.pending p ?_ hc).resolve_right id
        split at hp <;> exact hp
  | shown uri =>
    left
    simp only [step, Session.shown] at hp
    split at hp <;> exact hp
  | kill now => exact .inl ((k.session.kill_heard now).2.2 p hp)
  | _ => exact (k.unheard_step rfl).pending p hp hc

/-- A request about a document that waits was asked in the run, when the server had its method for
the document. -/
theorem pending_run (hnone : ∀ p ∈ k.session.client.pending, p.context.isSome = false)
    (actions : List DeskAction) : ∀ p ∈ (k.run actions).session.client.pending,
      p.context.isSome = true →
      ∃ before action after, actions = before ++ action :: after ∧
        (k.run before).Asks action p := by
  induction actions using List.reverseRecOn with
  | nil => exact fun p hp hc => absurd ((hnone p hp).symm.trans hc) (by simp)
  | append_singleton actions action ih =>
    intro p hp hc
    rw [run_concat] at hp
    rcases (k.run actions).pending_step action p hp hc with hp | hp
    · obtain ⟨before, first, after, rfl, ha⟩ := ih p hp hc
      exact ⟨before, first, after ++ [action], by simp, ha⟩
    · exact ⟨actions, action, [], rfl, hp⟩

/-- The completion answer that is kept was asked for in the run, when the server completed in its
document. -/
theorem cache_asked {name : String} (hk : Agrees name k) (hcache : k.session.cache = none)
    (hnone : ∀ p ∈ k.session.client.pending, p.context.isSome = false)
    (actions : List DeskAction) {c : CompletionCache}
    (hc : (k.run actions).session.cache = some c) :
    ∃ before action after id context, actions = before ++ action :: after ∧ c.Answers id context ∧
      (k.run before).Asks action ⟨id, Method.completion, some context⟩ := by
  obtain ⟨before, visible, now, after, id, context, rfl, ha, hanswers, -⟩ :=
    cache_run hk hcache actions hc
  obtain ⟨earlier, action, between, rfl, hasks⟩ :=
    pending_run hnone before _ (Session.waiting_of_answered? ha) rfl
  exact ⟨earlier, action, between ++ .pump visible now :: after, id, context, by simp, hanswers,
    hasks⟩

/-- **Gated requests.** Whatever was done with a session and whatever came in, for every document
and request: what is granted is granted because the server has the method, exactly if no kept
answer serves in place of a method that the server does not have any more; such an answer is about
the document, and was asked for when the server had the method. A request is refused exactly if no
kept answer serves and the server does not accept it, and then everything is as it was. -/
theorem run_gated (name : String) (connection : Connection) (options : ClientOptions)
    (completion : CompletionSettings) (processId now : Nat) (actions : List DeskAction)
    (d : Document) (text : String) (q : DocumentQuery) (time : Nat) :
    let k := start name connection options completion processId now
    let s := (k.run actions).session
    ((∀ outcome, (s.ask d text q time).1 = .ok outcome → outcome.isGranted = true →
        s.supports q.method d = true) ↔
      s.cached? d q = none ∨ s.supports q.method d = true) ∧
    (∀ items, s.cached? d q = some items →
      s.ask d text q time = (.ok (.cached items), d, s) ∧ q.method = Method.completion ∧
        ∃ c before action after id context, s.cache = some c ∧ c.uri = d.uri ∧
          c.Answers id context ∧ actions = before ++ action :: after ∧
          (k.run before).Asks action ⟨id, Method.completion, some context⟩) ∧
    ((s.ask d text q time).1 = .ok .unsupported ↔ s.cached? d q = none ∧ s.accepts d q = false) ∧
    ((s.ask d text q time).1 = .ok .unsupported → (s.ask d text q time).2 = (d, s)) := by
  intro k s
  refine ⟨⟨fun h => ?_, fun h outcome ho hg => ?_⟩, fun items hi => ?_,
    Session.ask_unsupported_iff, Session.ask_of_unsupported⟩
  · cases hi : s.cached? d q with
    | none => exact .inl rfl
    | some items => exact .inr (h (.cached items) (by rw [Session.ask_of_cached hi]) rfl)
  · rcases h with h | h
    · exact Session.supports_of_granted h ho hg
    · exact h
  · obtain ⟨c, position, linePrefix, rfl, hc, hr, -⟩ := Session.cached?_cases hi
    have hnone : ∀ p ∈ k.session.client.pending, p.context.isSome = false := by
      intro p hp
      rw [show k.session.client.pending = [⟨1, Method.start, none⟩] from
        (Session.flush_heard _ now).2.2] at hp
      rw [List.mem_singleton.1 hp]
      rfl
    obtain ⟨before, action, after, id, context, he, hanswers, hasks⟩ :=
      cache_asked (agrees_start ..) (Session.flush_heard _ now).2.1 hnone actions hc
    refine ⟨Session.ask_of_cached hi, rfl, c, before, action, after, id, context, hc, ?_, hanswers,
      he, hasks⟩
    unfold CompletionCache.canReuse at hr
    split at hr
    · cases hr
    · rename_i hx
      simp only [Bool.or_eq_true, not_or, bne_iff_ne, ne_eq, not_not] at hx
      exact hx.1.2.symm

/-! ## A method that is taken back -/

/-- The registration of completion in documents of a language. -/
def completionFor (languageId : String) : Json :=
  .obj [("id", .str "r"), ("method", .str Method.completion),
    ("registerOptions", .obj [("documentSelector", .arr [.obj [("language", .str languageId)]])])]

/-- The request of a server to have completion registered, or taken back. -/
def registers (method key : String) : List UInt8 :=
  (Outgoing.request 7 method (some (.obj [(key, .arr [completionFor "python"])]))).body

/-- A completion request is answered, and then the server takes completion back. -/
def takenBack : Desk :=
  (start "srv" (.opened .reject) ⟨["python"], none, none, .null⟩ .standard 1 0).run
    [.between { Connection.opened .reject with inbound :=
        [.frame ⟨[], [], greeting⟩,
          .frame ⟨[], [], registers "client/registerCapability" "registrations"⟩] },
      .pump (fun _ => true) 0, .place (.new "file:///a.py" none "python" "fo"),
      .ask "file:///a.py" "fo" (.completion ⟨0, 2⟩ "fo") 0,
      .between { Connection.opened .reject with inbound :=
        [.frame ⟨[], [], completed⟩,
          .frame ⟨[], [], registers "client/unregisterCapability" "unregisterations"⟩] },
      .pump (fun _ => true) 0]

/-- The document as it was opened. -/
def openedFo : Document :=
  { Document.new "file:///a.py" none "python" "fo" with server := some "srv" }

/-- Completion is granted by the answer that is kept, although the server completes no more. -/
theorem served_unsupported :
    takenBack.documents.get? "file:///a.py" = some openedFo ∧
      takenBack.session.supports Method.completion openedFo = false ∧
      (takenBack.session.ask openedFo "fo" (.completion ⟨0, 2⟩ "fo") 0).1.toOption.map
        RequestOutcome.isGranted = some true := by
  decide +kernel

end Desk

end LanguageClient
