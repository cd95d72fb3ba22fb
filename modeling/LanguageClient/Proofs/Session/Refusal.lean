import LanguageClient.Proofs.Session.Agreement

/-!
# Calls that fail

What a host does with a document in a session is one of five calls
(`DocumentCall`). None of them fails while the client runs. While it does not,
a call that would say something fails and says nothing, so the session stays
as it was. The document need not: a change is noted in its snapshot before
the server is told of it, so a change that was due (`Session.due`) stays noted
when nobody can be told any more.

* `didChange_eq`: what a change does to the document, and what it sends.
* `failure_of_running`: while the client runs every call succeeds.
* `failed_call`: exactly which calls that fail leave the document as it was,
  and with it what the server has of it.
-/
namespace LanguageClient

/-! ## Changes that are due -/

/-- Nothing is told of a text only if it is the same or the server wants no changes. -/
theorem Sync.changes_eq_nil_iff {kind : SyncKind} {old new : String} :
    Sync.changes kind old new = [] ↔ old = new ∨ kind = .none := by
  unfold Sync.changes
  by_cases h : old = new
  · simp [h]
  rw [if_neg h]
  cases kind with
  | none => simp
  | full => simp [h]
  | incremental =>
    simp only [h, false_or, reduceCtorEq, iff_false]
    intro hnil
    unfold Sync.incrementalChanges at hnil
    simp only at hnil
    split at hnil
    · rename_i hr
      rw [hnil] at hr
      exact h (String.toList_injective (Option.some.inj hr))
    · cases hnil

/-- The document one version on, at another text. -/
def Document.moved (d : Document) (text : String) : Document :=
  { d with text := text, version := d.version + 1 }

namespace Session

/-- Whether a document that is to be at a text has a change of which the server is to be told. -/
def due (s : Session) (d : Document) (text : String) : Bool :=
  s.holds d && text != d.text &&
    (s.options? Method.didChange d).any fun options => SyncKind.ofOptions options != .none

variable {s : Session} {d : Document} {now : Nat}

/-- A change goes into the document and out to the server if it is due, and is nothing else. -/
theorem didChange_eq (s : Session) (d : Document) (text : String) (now : Nat) :
    (s.due d text = false ∧ s.didChange d text now = (.ok false, d, s)) ∨
    (s.due d text = true ∧ ∃ events,
      s.didChange d text now =
        match s.notify Method.didChange (Params.didChange d.uri (d.version + 1) events) now with
        | (.error e, s) => (.error e, d.moved text, s)
        | (.ok (), s) => (.ok true, d.moved text, s)) := by
  unfold didChange due
  by_cases hd : s.holds d
  · simp only [hd, Bool.not_true, Bool.false_eq_true, if_false, Bool.true_and]
    cases ho : s.options? Method.didChange d with
    | none => exact .inl ⟨by simp, rfl⟩
    | some options =>
      simp only [Option.any_some, Document.syncTo, List.isEmpty_iff]
      by_cases hc : Sync.changes (.ofOptions options) d.text text = []
      · rw [if_pos hc]
        refine .inl ⟨?_, rfl⟩
        rcases Sync.changes_eq_nil_iff.1 hc with h | h <;> simp [h]
      · rw [if_neg hc]
        refine .inr ⟨?_, _, rfl⟩
        obtain ⟨ht, hk⟩ := not_or.1 (mt Sync.changes_eq_nil_iff.2 hc)
        simp [hk, Ne.symm ht]
  · exact .inl ⟨by simp [hd], by simp [hd]⟩

/-! ## Sending while the client runs, and while it does not -/

theorem notify_ok (hs : s.state = .running) (method : String) (params : Json) (now : Nat) :
    (s.notify method params now).1 = .ok () := by
  simp only [notify, s.client.notify_of_running method (some params) hs]

theorem notify_refused (hs : s.state ≠ .running) (method : String) (params : Json) (now : Nat) :
    s.notify method params now = (.error ⟨.sendNotification, s.state⟩, s) := by
  simp only [notify, s.client.notify_of_ne method (some params) hs]
  rfl

theorem request_ok (hs : s.state = .running) (method : String) (params : Json)
    (context : Option RequestContext) (now : Nat) :
    ∃ id, (s.request method params context now).1 = .ok id := by
  simp only [request, s.client.request_of_running method (some params) context hs]
  exact ⟨_, rfl⟩

theorem request_refused (hs : s.state ≠ .running) (method : String) (params : Json)
    (context : Option RequestContext) (now : Nat) :
    s.request method params context now = (.error ⟨.sendRequest, s.state⟩, s) := by
  simp only [request, s.client.request_of_ne method (some params) context hs]
  rfl

end Session

/-! ## Calls -/

/-- What a host does with a document. -/
inductive DocumentCall where
  | didOpen
  | didChange (text : String)
  | didSave (text : String)
  | didClose (text : String)
  | ask (text : String) (q : DocumentQuery)

def DocumentCall.text? : DocumentCall → Option String
  | didOpen => none
  | didChange text => some text
  | didSave text => some text
  | didClose text => some text
  | ask text _ => some text

def failure? {α : Type} : Except ClientError α → Option ClientError
  | .ok _ => none
  | .error e => some e

theorem failure?_eq_none {α : Type} {r : Except ClientError α} :
    failure? r = none ↔ ∃ a, r = .ok a := by
  cases r <;> simp [failure?]

namespace Session

/-- One call: its error if it fails, and the document and the session that it leaves. -/
def serve (s : Session) (d : Document) (now : Nat) :
    DocumentCall → Option ClientError × Document × Session
  | .didOpen => (failure? (s.didOpen d now).1, (s.didOpen d now).2)
  | .didChange text => (failure? (s.didChange d text now).1, (s.didChange d text now).2)
  | .didSave text => (failure? (s.didSave d text now).1, (s.didSave d text now).2)
  | .didClose text => (failure? (s.didClose d text now).1, (s.didClose d text now).2)
  | .ask text q => (failure? (s.ask d text q now).1, (s.ask d text q now).2)

variable {s : Session} (d : Document) (text : String) (now : Nat)

/-! ### While the client runs -/

theorem didOpen_ok (hs : s.state = .running) : ∃ b, (s.didOpen d now).1 = .ok b := by
  unfold didOpen
  split
  · exact ⟨_, rfl⟩
  · have hn := notify_ok hs Method.didOpen
      (Params.didOpen d.uri d.languageId d.version d.text) now
    simp only
    split <;> rename_i he <;> rw [he] at hn
    · cases hn
    · exact ⟨_, rfl⟩

theorem didChange_ok (hs : s.state = .running) : ∃ b, (s.didChange d text now).1 = .ok b := by
  rcases s.didChange_eq d text now with ⟨-, he⟩ | ⟨-, events, he⟩ <;> rw [he]
  · exact ⟨_, rfl⟩
  · have hn := notify_ok hs Method.didChange (Params.didChange d.uri (d.version + 1) events) now
    split <;> rename_i he' <;> rw [he'] at hn
    · cases hn
    · exact ⟨_, rfl⟩

theorem didSave_ok (hs : s.state = .running) : ∃ b, (s.didSave d text now).1 = .ok b := by
  unfold didSave
  split
  · exact ⟨_, rfl⟩
  split
  · exact ⟨_, rfl⟩
  rename_i options _
  obtain ⟨b, hb⟩ := didChange_ok d text now hs
  have hstate := (s.keeps_didChange d text now).1.state
  generalize s.didChange d text now = changed at hb hstate ⊢
  obtain ⟨r, d₁, s₁⟩ := changed
  simp only at hb hstate
  subst hb
  have hn := notify_ok (hstate.trans hs) Method.didSave
    (Params.didSave d₁.uri (if wantsText options then some d₁.text else none)) now
  simp only
  split <;> rename_i he <;> rw [he] at hn
  · cases hn
  · exact ⟨_, rfl⟩

theorem didClose_ok (hs : s.state = .running) : ∃ b, (s.didClose d text now).1 = .ok b := by
  unfold didClose
  split
  · exact ⟨_, rfl⟩
  obtain ⟨b, hb⟩ := didChange_ok d text now hs
  have hstate := (s.keeps_didChange d text now).1.state
  generalize s.didChange d text now = changed at hb hstate ⊢
  obtain ⟨r, d₁, s₁⟩ := changed
  simp only at hb hstate
  subst hb
  have hn := notify_ok (hstate.trans hs) Method.didClose (Params.document d₁.uri) now
  by_cases hc : s₁.supports Method.didClose d₁
  · simp only [hc, if_true, hn]
    exact ⟨_, rfl⟩
  · simp only [hc]
    exact ⟨_, rfl⟩

theorem ask_ok (q : DocumentQuery) (hs : s.state = .running) :
    ∃ outcome, (s.ask d text q now).1 = .ok outcome := by
  unfold ask send
  split
  · exact ⟨_, rfl⟩
  split
  · exact ⟨_, rfl⟩
  have hopen : ∃ b, (s.ensureOpen d now).1 = .ok b := by
    unfold ensureOpen
    split
    · exact ⟨_, rfl⟩
    · exact didOpen_ok d now hs
  have hstate := (s.keeps_ensureOpen d now).1.state
  generalize s.ensureOpen d now = opened at hopen hstate ⊢
  obtain ⟨r, d₁, s₁⟩ := opened
  obtain ⟨b, hb⟩ := hopen
  simp only at hb hstate
  subst hb
  have hs₁ : s₁.state = .running := hstate.trans hs
  cases b with
  | false => exact ⟨_, rfl⟩
  | true =>
    obtain ⟨b, hb⟩ := didChange_ok d₁ text now hs₁
    have hstate := (s₁.keeps_didChange d₁ text now).1.state
    simp only
    generalize s₁.didChange d₁ text now = changed at hb hstate ⊢
    obtain ⟨r, d₂, s₂⟩ := changed
    simp only at hb hstate
    subst hb
    obtain ⟨id, hid⟩ := request_ok (hstate.trans hs₁) q.method (q.params d₂.uri)
      (some (q.context d₂.uri)) now
    simp only
    split <;> rename_i he <;> rw [he] at hid
    · cases hid
    · exact ⟨_, rfl⟩

/-- While the client runs no call fails. -/
theorem failure_of_running (hs : s.state = .running) (call : DocumentCall) :
    (s.serve d now call).1 = none := by
  cases call with
  | didOpen => exact failure?_eq_none.2 (didOpen_ok d now hs)
  | didChange text => exact failure?_eq_none.2 (didChange_ok d text now hs)
  | didSave text => exact failure?_eq_none.2 (didSave_ok d text now hs)
  | didClose text => exact failure?_eq_none.2 (didClose_ok d text now hs)
  | ask text q => exact failure?_eq_none.2 (ask_ok d text now q hs)

/-! ### While the client does not run -/

/-- The document as a change to a text leaves it, whether or not it can be sent. -/
def noted (s : Session) (d : Document) (text : String) : Document :=
  if s.due d text then d.moved text else d

theorem noted_of_holds_eq_false (hd : s.holds d = false) : s.noted d text = d := by
  simp [noted, due, hd]

theorem didOpen_refused (hs : s.state ≠ .running) :
    (s.didOpen d now).2 = (d, s) ∧
      ((s.didOpen d now).1 = .ok false ∨ ∃ e, (s.didOpen d now).1 = .error e) := by
  unfold didOpen
  split
  · exact ⟨rfl, .inl rfl⟩
  · refine ⟨?_, .inr ⟨⟨.sendNotification, s.state⟩, ?_⟩⟩ <;> simp only [notify_refused hs]

theorem didChange_refused (hs : s.state ≠ .running) :
    (s.didChange d text now).2 = (s.noted d text, s) ∧
      ((s.didChange d text now).1 = .ok false ∨ ∃ e, (s.didChange d text now).1 = .error e) := by
  rcases s.didChange_eq d text now with ⟨hdue, he⟩ | ⟨hdue, events, he⟩
  · simp [he, noted, hdue]
  · simp [he, noted, hdue, notify_refused hs]

theorem didSave_refused (hs : s.state ≠ .running) {e : ClientError}
    (h : (s.didSave d text now).1 = .error e) :
    (s.didSave d text now).2 = (s.noted d text, s) := by
  unfold didSave at h ⊢
  split at h <;> rename_i hd
  · cases h
  rw [if_neg hd]
  split at h
  · cases h
  obtain ⟨hleft, hresult⟩ := didChange_refused d text now hs
  generalize s.didChange d text now = changed at hleft hresult ⊢
  obtain ⟨r, d₁, s₁⟩ := changed
  cases hleft
  rcases hresult with hr | ⟨e', hr⟩ <;> simp only at hr <;> subst hr
  · simp only [notify_refused hs]
  · rfl

theorem didClose_refused (hs : s.state ≠ .running) {e : ClientError}
    (h : (s.didClose d text now).1 = .error e) :
    (s.didClose d text now).2 = (s.noted d text, s) := by
  unfold didClose at h ⊢
  split at h <;> rename_i hd
  · cases h
  rw [if_neg hd]
  obtain ⟨hleft, hresult⟩ := didChange_refused d text now hs
  generalize s.didChange d text now = changed at hleft hresult h ⊢
  obtain ⟨r, d₁, s₁⟩ := changed
  cases hleft
  rcases hresult with hr | ⟨e', hr⟩ <;> simp only at hr <;> subst hr
  · by_cases hc : s.supports Method.didClose (s.noted d text)
    · simp only [hc, if_true, notify_refused hs]
    · simp only [hc] at h
      cases h
  · rfl

theorem ask_refused (q : DocumentQuery) (hs : s.state ≠ .running) {e : ClientError}
    (h : (s.ask d text q now).1 = .error e) :
    (s.ask d text q now).2 = (s.noted d text, s) := by
  unfold ask at h ⊢
  split at h
  · cases h
  unfold send at h ⊢
  split at h <;> rename_i hsup
  · cases h
  rw [if_neg hsup]
  unfold ensureOpen at h ⊢
  by_cases hd : s.holds d
  · simp only [hd, if_true] at h ⊢
    obtain ⟨hleft, hresult⟩ := didChange_refused d text now hs
    generalize s.didChange d text now = changed at hleft hresult h ⊢
    obtain ⟨r, d₁, s₁⟩ := changed
    cases hleft
    rcases hresult with hr | ⟨e', hr⟩ <;> simp only at hr <;> subst hr
    · simp only [request_refused hs]
    · rfl
  · simp only [hd, Bool.false_eq_true, if_false] at h ⊢
    rw [noted_of_holds_eq_false d text (by simpa using hd)]
    obtain ⟨hleft, hresult⟩ := didOpen_refused d now hs
    generalize s.didOpen d now = opened at hleft hresult ⊢
    obtain ⟨r, d₁, s₁⟩ := opened
    cases hleft
    rcases hresult with hr | ⟨e', hr⟩ <;> simp only at hr <;> subst hr <;> rfl

end Session

/-- Whether a call has a change to tell the server of first. -/
def DocumentCall.due (call : DocumentCall) (s : Session) (d : Document) : Bool :=
  call.text?.any (s.due d)

namespace Session

variable {s : Session} {d : Document} {now : Nat} {call : DocumentCall} {e : ClientError}

theorem failure?_eq_some {α : Type} {r : Except ClientError α} :
    failure? r = some e ↔ r = .error e := by
  cases r <;> simp [failure?]

/-- A call that fails leaves nothing behind but a change that was due. -/
theorem serve_of_failure (h : (s.serve d now call).1 = some e) :
    (s.serve d now call).2.2 = s ∧
      ((call.due s d = false ∧ (s.serve d now call).2.1 = d) ∨
        ∃ text, s.due d text = true ∧ call.due s d = true ∧
          (s.serve d now call).2.1 = d.moved text) := by
  have hs : s.state ≠ .running := fun hs => by
    rw [failure_of_running d now hs call] at h
    cases h
  have hnoted : ∀ {text : String} {r : Option ClientError × Document × Session},
      call.due s d = s.due d text → r.2 = (s.noted d text, s) →
      r.2.2 = s ∧ ((call.due s d = false ∧ r.2.1 = d) ∨
        ∃ text, s.due d text = true ∧ call.due s d = true ∧ r.2.1 = d.moved text) := by
    intro text r hcall hr
    rw [hr, hcall]
    refine ⟨rfl, ?_⟩
    unfold noted
    cases hdue : s.due d text with
    | false => exact .inl ⟨rfl, rfl⟩
    | true => exact .inr ⟨text, hdue, rfl, rfl⟩
  cases call with
  | didOpen =>
    obtain ⟨hleft, -⟩ := didOpen_refused d now hs
    exact ⟨congrArg Prod.snd hleft, .inl ⟨rfl, congrArg Prod.fst hleft⟩⟩
  | didChange text => exact hnoted rfl (didChange_refused d text now hs).1
  | didSave text => exact hnoted rfl (didSave_refused d text now hs (failure?_eq_some.1 h))
  | didClose text => exact hnoted rfl (didClose_refused d text now hs (failure?_eq_some.1 h))
  | ask text q => exact hnoted rfl (ask_refused d text now q hs (failure?_eq_some.1 h))

/-- **Calls that fail.** A call fails only while the client does not run. Then nothing is queued,
the session is as it was, and the document is with the server it was with. It is as it was at all,
and what the server has of it agrees with it as before, exactly if no change was due. -/
theorem failed_call (h : (s.serve d now call).1 = some e) :
    s.state ≠ .running ∧ (s.serve d now call).2.2 = s ∧
      (s.serve d now call).2.1.server = d.server ∧
      ((s.serve d now call).2.1 = d ↔ call.due s d = false) ∧
      ∀ m, s.mirror? = some m → m.Fits s.name d →
        (m.Fits s.name (s.serve d now call).2.1 ↔ call.due s d = false) := by
  have hs : s.state ≠ .running := fun hs => by
    rw [failure_of_running d now hs call] at h
    cases h
  obtain ⟨hsession, ⟨hdue, hd⟩ | ⟨text, htext, hdue, hd⟩⟩ := serve_of_failure h
  · refine ⟨hs, hsession, by rw [hd], by simp [hd, hdue], fun m _ hf => ?_⟩
    rw [hd]
    exact iff_of_true hf hdue
  · have hserver : d.server = some s.name := by
      simp only [due, Bool.and_eq_true] at htext
      simpa [holds] using htext.1.1
    have hversion : d.version ≠ d.version + 1 := by omega
    refine ⟨hs, hsession, by rw [hd]; rfl, ?_, fun m _ hf => ?_⟩
    · rw [hd, hdue]
      refine iff_of_false (fun hx => hversion ?_) (by simp)
      exact (congrArg Document.version hx).symm
    · rw [hd, hdue]
      refine iff_of_false (fun hx => hversion ?_) (by simp)
      have hnew := hx hserver
      rw [show (d.moved text).uri = d.uri from rfl, hf hserver] at hnew
      exact congrArg Prod.fst (Option.some.inj hnew)

end Session

/-! ## A session that was shut down -/

namespace Desk

/-- The answer of a server that wants to be told of documents, and of changes by the whole text. -/
def greeting : List UInt8 :=
  (Outgoing.reply (.number 1) (.ok (.obj
    [("capabilities", .obj [("textDocumentSync", .int 1)])]))).body

/-- A document that was opened with a server before the session was shut down. -/
def leftOpen : Desk :=
  (start "srv" (.opened .reject) ⟨["python"], none, none, .null⟩ .standard 1 0).run
    [.between { Connection.opened .reject with inbound := [.frame ⟨[], [], greeting⟩] },
      .pump (fun _ => true) 0, .place (.new "file:///a.py" none "python" "a\n"),
      .didOpen "file:///a.py" 0, .shutdown 0]

/-- The document as it was opened. -/
def opened : Document :=
  { Document.new "file:///a.py" none "python" "a\n" with server := some "srv" }

theorem failed_call_close :
    leftOpen.documents.get? "file:///a.py" = some opened ∧
      (leftOpen.session.serve opened 0 (.didClose "a\n")).1 =
        some ⟨.sendNotification, .shuttingDown⟩ ∧
      (leftOpen.session.serve opened 0 (.didClose "a\n")).2.1 = opened := by
  have h : (leftOpen.session.serve opened 0 (.didClose "a\n")).1 =
      some ⟨.sendNotification, .shuttingDown⟩ := by decide +kernel
  exact ⟨by decide +kernel, h, (Session.failed_call h).2.2.2.1.2 (by decide +kernel)⟩

/-- A change that is refused after the shutdown is noted in the document all the same, and the
server still has what it was told before. -/
theorem snapshot_ahead :
    leftOpen.documents.get? "file:///a.py" = some opened ∧
      (leftOpen.session.serve opened 0 (.didChange "b\n")).1 =
        some ⟨.sendNotification, .shuttingDown⟩ ∧
      (leftOpen.session.serve opened 0 (.didChange "b\n")).2.1 =
        { opened with version := 2, text := "b\n" } ∧
      ((leftOpen.session.serve opened 0 (.didChange "b\n")).2.2.mirror?.bind
        (Keyed.get? "file:///a.py")) = some (1, "a\n") := by
  decide +kernel

end Desk

end LanguageClient
