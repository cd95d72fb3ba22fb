import LanguageClient.Proofs.Keyed
import LanguageClient.Proofs.Session.Sound
import Mathlib.Data.List.Induction

/-!
# What a server was told to open

A document that a mirror of the server has was opened, and not closed since
(`Mirror.held_since`). Of all operations only opening a document and asking
about it open one, and then it is that document, which was not open before.

* `tells_didOpen` to `tells_ask`: what an operation on a document opens.
* `Carries.tells`: all else opens nothing.
-/
namespace LanguageClient

def Outgoing.opens? : Outgoing → Option String
  | .notification method params => if method = Method.didOpen then Mirror.uri? params else none
  | _ => none

def Outgoing.closes? : Outgoing → Option String
  | .notification method params => if method = Method.didClose then Mirror.uri? params else none
  | _ => none

namespace Mirror

variable {m m' : Mirror} {message : Outgoing} {uri : String} {known : Int × String}

theorem held?_eq_some {params : Option Json} (h : m.held? params = some (uri, known)) :
    uri? params = some uri ∧ m.get? uri = some known := by
  obtain ⟨other, hother, h⟩ := Option.bind_eq_some_iff.1 h
  obtain ⟨value, hvalue, h⟩ := Option.bind_eq_some_iff.1 h
  cases h
  exact ⟨hother, hvalue⟩

/-- What a mirror has behind a message was opened by it, or was there before and not closed. -/
theorem held_before (h : m.accept? message = some m') (hk : m'.get? uri = some known) :
    message.opens? = some uri ∨
      (message.closes? ≠ some uri ∧ ∃ known', m.get? uri = some known') := by
  cases message with
  | reply id outcome =>
    cases h
    exact .inr ⟨by simp [Outgoing.closes?], _, hk⟩
  | request id method params =>
    have hm : m = m' := by
      simp only [accept?] at h
      split at h
      · obtain ⟨-, -, h⟩ := Option.bind_eq_some_iff.1 h
        exact Option.some.inj h
      · exact Option.some.inj h
    exact .inr ⟨by simp [Outgoing.closes?], _, hm ▸ hk⟩
  | notification method params =>
    have hput : ∀ {other : String} {value : Int × String}, other ≠ uri →
        (m.put other value).get? uri = some known → ∃ known', m.get? uri = some known' :=
      fun ho hk => ⟨known, (Keyed.get?_put_of_ne _ m ho.symm).symm.trans hk⟩
    simp only [accept?] at h
    split at h <;> rename_i hopen
    · obtain ⟨other, hother, h⟩ := Option.bind_eq_some_iff.1 h
      obtain ⟨version, -, h⟩ := Option.bind_eq_some_iff.1 h
      obtain ⟨text, -, h⟩ := Option.bind_eq_some_iff.1 h
      cases h
      by_cases ho : other = uri
      · exact .inl (by simp [Outgoing.opens?, hopen, hother, ho])
      · refine .inr ⟨?_, hput ho hk⟩
        simp [Outgoing.closes?, hopen, show Method.didOpen ≠ Method.didClose by decide]
    right
    split at h <;> rename_i hchange
    · obtain ⟨⟨other, version, text⟩, hheld, h⟩ := Option.bind_eq_some_iff.1 h
      obtain ⟨version', -, h⟩ := Option.bind_eq_some_iff.1 h
      obtain ⟨events, -, h⟩ := Option.bind_eq_some_iff.1 h
      obtain ⟨text', -, h⟩ := Option.bind_eq_some_iff.1 h
      split at h
      · cases h
        refine ⟨?_, ?_⟩
        · simp [Outgoing.closes?, hchange, show Method.didChange ≠ Method.didClose by decide]
        · by_cases ho : other = uri
          · exact ⟨_, ho ▸ (held?_eq_some hheld).2⟩
          · exact hput ho hk
      · cases h
    split at h <;> rename_i hsave
    · obtain ⟨-, -, h⟩ := Option.bind_eq_some_iff.1 h
      cases h
      refine ⟨?_, known, hk⟩
      simp [Outgoing.closes?, hsave, show Method.didSave ≠ Method.didClose by decide]
    split at h <;> rename_i hclose
    · obtain ⟨⟨other, value⟩, hheld, h⟩ := Option.bind_eq_some_iff.1 h
      cases h
      have ho : uri ≠ other := by
        rintro rfl
        rw [Keyed.get?_erase_self] at hk
        cases hk
      rw [Keyed.get?_erase_of_ne m ho] at hk
      refine ⟨?_, known, hk⟩
      simp [Outgoing.closes?, hclose, (held?_eq_some hheld).1, ho.symm]
    · cases h
      exact ⟨by simp [Outgoing.closes?, hclose], known, hk⟩

/-- A document that a mirror has was opened, and not closed since. -/
theorem held_since {log : List Outgoing} :
    ∀ {m : Mirror} {known : Int × String}, replay? [] log = some m → m.get? uri = some known →
      ∃ before opening after, log = before ++ opening :: after ∧ opening.opens? = some uri ∧
        ∀ message ∈ after, message.closes? ≠ some uri := by
  induction log using List.reverseRecOn with
  | nil =>
    intro m known h hk
    cases h
    cases hk
  | append_singleton log message ih =>
    intro m known h hk
    rw [replay?_append] at h
    obtain ⟨m₀, hm₀, h⟩ := Option.bind_eq_some_iff.1 h
    rw [replay?_singleton] at h
    rcases held_before h hk with ho | ⟨hc, known', hk'⟩
    · exact ⟨log, message, [], rfl, ho, by simp⟩
    · obtain ⟨before, opening, after, rfl, ho, ha⟩ := ih hm₀ hk'
      refine ⟨before, opening, after ++ [message], by simp, ho, fun x hx => ?_⟩
      rcases List.mem_append.1 hx with hx | hx
      · exact ha x hx
      · rw [List.mem_singleton.1 hx]
        exact hc

end Mirror

namespace Session

/-- A document that the server has was opened with it, and not closed since. -/
theorem Mirrors.opened {s : Session} {d : Document} (h : s.Mirrors d)
    (hi : s.client.outbound = []) :
    ∃ before opening after, s.sent = before ++ opening :: after ∧
      opening.opens? = some d.uri ∧ ∀ message ∈ after, message.closes? ≠ some d.uri := by
  obtain ⟨m, hm, hget⟩ := h
  rw [mirror?, log, hi, List.append_nil] at hm
  exact Mirror.held_since hm hget

/-! ## What is queued -/

/-- The messages that are queued between two states of a session are all of a kind. -/
def Tells (s s' : Session) (P : Outgoing → Prop) : Prop :=
  ∃ ms, s'.log = s.log ++ ms ∧ ∀ message ∈ ms, P message

variable {s s' s'' : Session} {P Q : Outgoing → Prop}

theorem Tells.refl (s : Session) (P : Outgoing → Prop) : Tells s s P :=
  ⟨[], by simp, by simp⟩

theorem Tells.mono (h : Tells s s' P) (hpq : ∀ message, P message → Q message) : Tells s s' Q :=
  h.imp fun _ ⟨hms, hp⟩ => ⟨hms, fun message hm => hpq message (hp message hm)⟩

theorem Tells.trans (h : Tells s s' P) (h' : Tells s' s'' P) : Tells s s'' P := by
  obtain ⟨ms, hms, hp⟩ := h
  obtain ⟨ms', hms', hp'⟩ := h'
  refine ⟨ms ++ ms', by rw [hms', hms, List.append_assoc], fun message hm => ?_⟩
  exact (List.mem_append.1 hm).elim (hp message) (hp' message)

/-- Messages that open nothing open only what is allowed. -/
theorem Tells.silent (h : Tells s s' fun message => message.opens? = none) (R : String → Prop) :
    Tells s s' fun message => ∀ uri, message.opens? = some uri → R uri :=
  h.mono fun message hm uri hx => by rw [hm] at hx; cases hx

theorem opens?_quiet {message : Outgoing} (h : Mirror.Quiet message) : message.opens? = none := by
  cases message with
  | notification method params =>
    simp only [Mirror.Quiet, List.mem_cons, not_or] at h
    exact if_neg h.1
  | request id method params => rfl
  | reply id outcome => rfl

/-- What is about no document opens none. -/
theorem Carries.tells (h : Carries s s') : Tells s s' fun message => message.opens? = none :=
  h.said.imp fun _ ⟨hms, hq⟩ => ⟨hms, fun message hm => opens?_quiet (hq message hm)⟩

theorem tells_notify (s : Session) (method : String) (params : Json) (now : Nat) :
    Tells s (s.notify method params now).2 fun message =>
      message = .notification method (some params) ∧ s.state = .running := by
  by_cases hs : s.client.state = .running
  · simp only [notify, s.client.notify_of_running method (some params) hs]
    refine ⟨[.notification method (some params)], ?_, ?_⟩
    · rw [(flush_log _ now).1]
      simp [log]
    · exact fun message hm => ⟨List.mem_singleton.1 hm, hs⟩
  · rw [notify_refused hs]
    exact .refl s _

/-- A notification that is not `didOpen` opens nothing. -/
theorem tells_notify_other (s : Session) {method : String} (hm : method ≠ Method.didOpen)
    (params : Json) (now : Nat) :
    Tells s (s.notify method params now).2 fun message => message.opens? = none :=
  (s.tells_notify method params now).mono fun message h => by
    rw [h.1]
    exact if_neg hm

theorem tells_request (s : Session) (method : String) (params : Json)
    (context : Option RequestContext) (now : Nat) :
    Tells s (s.request method params context now).2 fun message => message.opens? = none := by
  by_cases hs : s.client.state = .running
  · simp only [request, s.client.request_of_running method (some params) context hs]
    refine ⟨[.request s.client.nextId method (some params)], ?_, ?_⟩
    · rw [(flush_log _ now).1]
      simp [log]
    · intro message hm
      rw [List.mem_singleton.1 hm]
      rfl
  · rw [request_refused hs]
    exact .refl s _

/-- Whether the server wants to be told of changes to a document. -/
def wantsChanges (s : Session) (d : Document) : Bool :=
  (s.options? Method.didChange d).any fun options => SyncKind.ofOptions options != .none

theorem wantsChanges_steady {d d' : Document} {name : String} (h : s.Steady s')
    (hd : d.Stays name d') : s'.wantsChanges d' = s.wantsChanges d := by
  simp only [wantsChanges, options?, h.registry, hd.languageId, hd.path]

variable (s : Session) (d : Document) (text : String) (now : Nat)

theorem tells_didOpen : Tells s (s.didOpen d now).2.2 fun message => ∀ uri,
    message.opens? = some uri → uri = d.uri ∧ d.server = none ∧
      (s.didOpen d now).1 = .ok true ∧
      (s.didOpen d now).2.1 = { d with server := some s.name } := by
  have hdoc := s.didOpen_document d now
  have hn := s.tells_notify Method.didOpen (Params.didOpen d.uri d.languageId d.version d.text) now
  have htell : Tells s (s.didOpen d now).2.2 fun message =>
      message = .notification Method.didOpen
        (some (Params.didOpen d.uri d.languageId d.version d.text)) ∧
      (!d.isOpen && s.handles d) ∧ (s.didOpen d now).1 = .ok true := by
    unfold didOpen
    by_cases ho : d.isOpen || !s.supports Method.didOpen d
    · rw [if_pos ho]
      exact .refl s _
    simp only [if_neg ho]
    simp only [Bool.or_eq_true, Bool.not_eq_true', not_or, Bool.not_eq_false,
      Bool.not_eq_true] at ho
    split <;> rename_i he <;> rw [he] at hn <;> refine hn.mono fun message hm => ⟨hm.1, ?_, ?_⟩
    · simp [handles, Client.isRunning, ho, show s.client.state = .running from hm.2]
    · have hok := notify_ok hm.2 Method.didOpen
        (Params.didOpen d.uri d.languageId d.version d.text) now
      rw [he] at hok
      cases hok
    · simp [handles, Client.isRunning, ho, show s.client.state = .running from hm.2]
    · rfl
  refine htell.mono fun message hm uri hopens => ?_
  obtain ⟨rfl, ho, hok⟩ := hm
  refine ⟨?_, ?_, hok, hdoc.trans (if_pos ho)⟩
  · rw [show Outgoing.opens? (.notification Method.didOpen
      (some (Params.didOpen d.uri d.languageId d.version d.text))) = some d.uri from rfl] at hopens
    exact (Option.some.inj hopens).symm
  · simp only [Document.isOpen, Bool.and_eq_true, Bool.not_eq_true', Option.isSome_eq_false_iff,
      Option.isNone_iff_eq_none] at ho
    exact ho.1

theorem tells_didChange : Tells s (s.didChange d text now).2.2 fun message =>
    message.opens? = none := by
  have hm : Method.didChange ≠ Method.didOpen := by decide
  rcases s.didChange_eq d text now with ⟨-, he⟩ | ⟨-, events, he⟩ <;> rw [he]
  · exact .refl s _
  have hn := s.tells_notify_other hm (Params.didChange d.uri (d.version + 1) events) now
  split <;> rename_i he' <;> rw [he'] at hn <;> exact hn

theorem tells_didSave : Tells s (s.didSave d text now).2.2 fun message =>
    message.opens? = none := by
  have hm : Method.didSave ≠ Method.didOpen := by decide
  unfold didSave
  split
  · exact .refl s _
  split
  · exact .refl s _
  rename_i options _
  have hs := s.tells_didChange d text now
  generalize s.didChange d text now = changed at hs ⊢
  obtain ⟨r, d₁, s₁⟩ := changed
  cases r with
  | error e => exact hs
  | ok _ =>
    have hn := s₁.tells_notify_other hm
      (Params.didSave d₁.uri (if wantsText options then some d₁.text else none)) now
    simp only at hs ⊢
    split <;> rename_i he <;> rw [he] at hn <;> exact hs.trans hn

theorem tells_didClose : Tells s (s.didClose d text now).2.2 fun message =>
    message.opens? = none := by
  have hm : Method.didClose ≠ Method.didOpen := by decide
  unfold didClose
  split
  · exact .refl s _
  have hs := s.tells_didChange d text now
  generalize s.didChange d text now = changed at hs ⊢
  obtain ⟨r, d₁, s₁⟩ := changed
  cases r with
  | error e => exact hs
  | ok _ =>
    simp only at hs ⊢
    have hsaid : Tells s₁ (if s₁.supports Method.didClose d₁ then
        s₁.notify Method.didClose (Params.document d₁.uri) now else (.ok (), s₁)).2
        fun message => message.opens? = none := by
      split
      · exact s₁.tells_notify_other hm ..
      · exact .refl s₁ _
    split
    · exact hs.trans hsaid
    · exact (hs.trans hsaid).trans (carries_dropCache _ _).tells

/-- A change to a document that is open with the server is noted if the server wants changes. -/
theorem didChange_text (hd : d.server = some s.name) :
    (s.didChange d text now).2.1.text = if s.wantsChanges d then text else d.text := by
  have hdue : s.due d text = (text != d.text && s.wantsChanges d) := by
    simp [due, wantsChanges, holds, hd]
  rcases s.didChange_eq d text now with ⟨hx, he⟩ | ⟨hx, events, he⟩ <;> rw [he] <;> rw [hdue] at hx
  · by_cases hw : s.wantsChanges d
    · simp_all
    · simp [hw]
  · rw [Bool.and_eq_true] at hx
    split <;> simp [Document.moved, hx.2]

/-- A question opens its document if it is not open yet, and then brings it up to date. -/
theorem tells_ask (q : DocumentQuery) : Tells s (s.ask d text q now).2.2 fun message => ∀ uri,
    message.opens? = some uri → uri = d.uri ∧ d.server = none ∧
      (s.ask d text q now).2.1.server = some s.name ∧
      (s.ask d text q now).2.1.text = if s.wantsChanges d then text else d.text := by
  unfold ask
  split
  · exact .refl s _
  unfold send
  split
  · exact .refl s _
  have hopen : (s.ensureOpen d now).1 ≠ .ok true →
      Tells s (s.ensureOpen d now).2.2 fun message => message.opens? = none := by
    intro hr
    unfold ensureOpen at hr ⊢
    split
    · exact .refl s _
    · rename_i hd
      rw [if_neg hd] at hr
      refine (s.tells_didOpen d now).mono fun message hm => ?_
      by_contra hx
      obtain ⟨uri, hx⟩ := Option.ne_none_iff_exists'.1 hx
      exact hr (hm uri hx).2.2.1
  have hopened : Tells s (s.ensureOpen d now).2.2 fun message => ∀ uri,
      message.opens? = some uri → uri = d.uri ∧ d.server = none ∧
        (s.ensureOpen d now).2.1 = { d with server := some s.name } := by
    unfold ensureOpen
    split
    · exact .refl s _
    · exact (s.tells_didOpen d now).mono fun message hm uri hx =>
        ⟨(hm uri hx).1, (hm uri hx).2.1, (hm uri hx).2.2.2⟩
  have hsteady := (s.steady_ensureOpen d now).1
  generalize s.ensureOpen d now = opened at hopen hopened hsteady ⊢
  obtain ⟨r, d₁, s₁⟩ := opened
  rcases r with e | _ | _
  · exact (hopen (by simp)).silent _
  · exact (hopen (by simp)).silent _
  simp only at hopened hsteady ⊢
  have hchange := s₁.tells_didChange d₁ text now
  have hserver := (s₁.keeps_didChange d₁ text now).2
  have htext := fun hd => s₁.didChange_text d₁ text now hd
  generalize s₁.didChange d₁ text now = changed at hchange hserver htext ⊢
  obtain ⟨r, d₂, s₂⟩ := changed
  have hresult : Tells s s₁ fun message => ∀ uri, message.opens? = some uri →
      uri = d.uri ∧ d.server = none ∧ d₂.server = some s.name ∧
        d₂.text = if s.wantsChanges d then text else d.text := by
    refine hopened.mono fun message hm uri hx => ?_
    obtain ⟨hu, hd, rfl⟩ := hm uri hx
    refine ⟨hu, hd, hserver, ?_⟩
    rw [htext (congrArg some hsteady.name.symm),
      wantsChanges_steady hsteady (d.stays_attached s.name)]
  cases r with
  | error e => exact hresult.trans (hchange.silent _)
  | ok _ =>
    have hr := s₂.tells_request q.method (q.params d₂.uri) (some (q.context d₂.uri)) now
    simp only at hchange ⊢
    split <;> rename_i he <;> rw [he] at hr <;>
      exact (hresult.trans (hchange.silent _)).trans (hr.silent _)

end Session

end LanguageClient
