import LanguageClient.Proofs.Keyed
import LanguageClient.Proofs.Sync.Events
import LanguageClient.Session.Documents

/-!
# What a server knows of the documents

A `Mirror` is the documents of a server that reads the messages as they were
sent: it opens, changes and closes them as it is told, and knows nothing of
the client. It refuses (`none`) what makes no sense to it: a change, a save,
a close or a request for a document it does not hold, a change that does not
go one version on, and a change that does not resolve in its text.

* `accept?_didOpen` to `accept?_request`: what the client's own messages do.
* `accept?_quiet`: all other messages leave the mirror alone.
-/
namespace LanguageClient

/-- The version and the text of each document, by uri. -/
abbrev Mirror := Keyed (Int × String)

namespace Mirror

/-! ## Reading parameters -/

/-- What a message says of the document it is about. -/
def about? (name : String) (params : Option Json) : Option Json :=
  (params.bind (Json.get? "textDocument")).bind (Json.get? name)

def uri? (params : Option Json) : Option String :=
  (about? "uri" params).bind Json.str?

/-- The version that a message leads to. -/
def version? (params : Option Json) : Option Int :=
  match about? "version" params with
  | some (.int n) => some n
  | _ => none

def text? (params : Option Json) : Option String :=
  (about? "text" params).bind Json.str?

def events? (params : Option Json) : Option (List ChangeEvent) :=
  (params.bind (Json.get? "contentChanges")).bind fun j =>
    (Decoder.list ChangeEvent.decode j).toOption

/-! ## Taking messages in -/

/-- The requests that are about a document. -/
def documentRequests : List String :=
  [Method.completion, Method.hover, Method.signatureHelp, Method.definition, Method.references,
    Method.implementation, Method.declaration, Method.typeDefinition, Method.documentSymbol,
    Method.formatting, Method.rangeFormatting]

/-- The document of a message and what is known of it, which must be something. -/
def held? (m : Mirror) (params : Option Json) : Option (String × Int × String) := do
  let uri ← uri? params
  let known ← m.get? uri
  some (uri, known)

/-- The mirror after one message, unless the message makes no sense. -/
def accept? (m : Mirror) : Outgoing → Option Mirror
  | .notification method params =>
    if method = Method.didOpen then do
      let uri ← uri? params
      let version ← version? params
      let text ← text? params
      some (m.put uri (version, text))
    else if method = Method.didChange then do
      let (uri, known, text) ← m.held? params
      let version ← version? params
      let events ← events? params
      let text ← ChangeEvent.replay? text events
      if version = known + 1 then some (m.put uri (version, text)) else none
    else if method = Method.didSave then do
      let _ ← m.held? params
      some m
    else if method = Method.didClose then do
      let (uri, _) ← m.held? params
      some (m.erase uri)
    else some m
  | .request _ method params =>
    if method ∈ documentRequests then do
      let _ ← m.held? params
      some m
    else some m
  | .reply _ _ => some m

/-- The mirror after several messages. -/
def replay? (m : Mirror) (log : List Outgoing) : Option Mirror :=
  log.foldlM accept? m

theorem replay?_append (m : Mirror) (log more : List Outgoing) :
    m.replay? (log ++ more) = (m.replay? log).bind (replay? · more) :=
  List.foldlM_append

theorem replay?_singleton (m : Mirror) (message : Outgoing) :
    m.replay? [message] = m.accept? message := by
  simp [replay?]

/-! ## The messages of a client -/

variable {m : Mirror}

theorem accept?_didOpen (languageId : String) (version : Int) (uri text : String) :
    m.accept? (.notification Method.didOpen (some (Params.didOpen uri languageId version text))) =
      some (m.put uri (version, text)) := by
  generalize hp : some (Params.didOpen uri languageId version text) = params
  have huri : uri? params = some uri := by rw [← hp]; rfl
  have hversion : version? params = some version := by rw [← hp]; rfl
  have htext : text? params = some text := by rw [← hp]; rfl
  simp [accept?, huri, hversion, htext]

/-- Parameters that name a document the mirror has. -/
theorem held?_of {params : Option Json} {uri : String} {known : Int × String}
    (hu : uri? params = some uri) (h : m.get? uri = some known) :
    m.held? params = some (uri, known) := by
  simp [held?, hu, h]

theorem accept?_didChange {uri text text' : String} {version : Int} {events : List ChangeEvent}
    (h : m.get? uri = some (version, text))
    (he : ChangeEvent.replay? text events = some text') :
    m.accept? (.notification Method.didChange
        (some (Params.didChange uri (version + 1) events))) =
      some (m.put uri (version + 1, text')) := by
  have hheld : m.held? (some (Params.didChange uri (version + 1) events)) =
      some (uri, version, text) := held?_of rfl h
  have hversion : version? (some (Params.didChange uri (version + 1) events)) =
      some (version + 1) := rfl
  have hevents : events? (some (Params.didChange uri (version + 1) events)) = some events := by
    simp [events?, Params.didChange, Json.get?, ChangeEvent.list_decode_toJson, Except.toOption]
  simp [accept?, show Method.didChange ≠ Method.didOpen by decide, hheld, hversion, hevents, he]

theorem uri?_didSave (uri : String) (text : Option String) :
    uri? (some (Params.didSave uri text)) = some uri := by
  cases text <;> rfl

theorem accept?_didSave {uri : String} {known : Int × String} (h : m.get? uri = some known)
    (text : Option String) :
    m.accept? (.notification Method.didSave (some (Params.didSave uri text))) = some m := by
  simp [accept?, show Method.didSave ≠ Method.didOpen by decide,
    show Method.didSave ≠ Method.didChange by decide, held?_of (uri?_didSave uri text) h]

theorem accept?_didClose {uri : String} {known : Int × String} (h : m.get? uri = some known) :
    m.accept? (.notification Method.didClose (some (Params.document uri))) =
      some (m.erase uri) := by
  have hheld : m.held? (some (Params.document uri)) = some (uri, known) := held?_of rfl h
  simp [accept?, show Method.didClose ≠ Method.didOpen by decide,
    show Method.didClose ≠ Method.didChange by decide,
    show Method.didClose ≠ Method.didSave by decide, hheld]

theorem uri?_query (uri : String) (q : DocumentQuery) : uri? (some (q.params uri)) = some uri := by
  cases q with
  | places kind position => cases kind <;> rfl
  | formatting options range => cases range <;> rfl
  | completion _ _ => rfl
  | hover _ => rfl
  | signature _ => rfl
  | symbols => rfl

theorem accept?_request {uri : String} {known : Int × String} (h : m.get? uri = some known)
    (id : Int) (q : DocumentQuery) :
    m.accept? (.request id q.method (some (q.params uri))) = some m := by
  simp [accept?, held?_of (uri?_query uri q) h]

/-- Whether a message is about no document. -/
def Quiet : Outgoing → Prop
  | .notification method _ =>
    method ∉ [Method.didOpen, Method.didChange, Method.didSave, Method.didClose]
  | .request _ method _ => method ∉ documentRequests
  | .reply _ _ => True

theorem accept?_quiet {message : Outgoing} (h : Quiet message) : m.accept? message = some m := by
  cases message with
  | notification method params =>
    simp only [Quiet, List.mem_cons, List.not_mem_nil, or_false, not_or] at h
    obtain ⟨h1, h2, h3, h4⟩ := h
    simp [accept?, h1, h2, h3, h4]
  | request id method params =>
    have h' : method ∉ documentRequests := h
    simp [accept?, h']
  | reply id outcome => rfl

theorem replay?_quiet {log : List Outgoing} (h : ∀ message ∈ log, Quiet message) :
    m.replay? log = some m := by
  induction log with
  | nil => rfl
  | cons message log ih =>
    rw [replay?, List.foldlM_cons, accept?_quiet (h message (List.mem_cons_self ..))]
    exact ih fun x hx => h x (List.mem_cons_of_mem _ hx)

end Mirror

end LanguageClient
