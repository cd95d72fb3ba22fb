import LanguageClient.Workspace.Basic

/-!
# Pumping a workspace

`pump` pumps the sessions in the order of their names, removes those that
have been torn down, and offers the documents that are not open to the
servers that can do other things than before.
-/
namespace LanguageClient.Workspace

/-- Pumps the sessions that are picked; counts the frames. -/
def pumpSessions (picked : Session → Bool) (visible : String → Bool) (now : Nat) :
    Keyed Session → Nat × List HostCall × Keyed Session
  | [] => (0, [], [])
  | (name, s) :: rest =>
    let (handled, calls, s) := if picked s then s.pump visible now else (0, [], s)
    let (others, more, rest) := pumpSessions picked visible now rest
    (handled + others, calls ++ more, (name, s) :: rest)

/-- Removes the sessions that have been torn down. -/
def reap (w : Workspace) : List HostCall × Workspace :=
  w.forget (w.sessions.filter fun (_, s) => s.tornDown)
    (w.sessions.filter fun (_, s) => !s.tornDown)

/-- Opens the wanted ones of some documents with a server. -/
def openAll (name : String) (wanted : Document → Bool) (now : Nat) (s : Session) :
    DocumentStore → List HostCall × DocumentStore × Session
  | [] => ([], [], s)
  | (uri, doc) :: rest =>
    if wanted doc then
      let (result, doc, s) := s.didOpen doc now
      let (calls, _) := report name result
      let (more, rest, s) := openAll name wanted now s rest
      (calls ++ more, (uri, doc) :: rest, s)
    else
      let (calls, rest, s) := openAll name wanted now s rest
      (calls, (uri, doc) :: rest, s)

/-- Offers the documents to a server if it can do other things than before. -/
def offer (w : Workspace) (name : String) (now : Nat) : List HostCall × Workspace :=
  match w.sessions.get? name with
  | none => ([], w)
  | some s =>
    match s.takeCapabilitiesChanged with
    | (false, _) => ([], w)
    | (true, s) =>
      let wanted (doc : Document) := !doc.isOpen && w.route? doc.languageId = some name
      let (calls, documents, s) := openAll name wanted now s w.documents
      (calls, { w with documents := documents, sessions := w.sessions.put name s })

/-- Offers the documents to some servers. -/
def offerAll (now : Nat) : List String → Workspace → List HostCall × Workspace
  | [], w => ([], w)
  | name :: names, w =>
    let (calls, w) := w.offer name now
    let (more, w) := offerAll now names w
    (calls ++ more, w)

/-- Pumps the sessions that are picked. -/
def pumpWhere (w : Workspace) (picked : Session → Bool) (visible : String → Bool) (now : Nat) :
    Nat × List HostCall × Workspace :=
  let (handled, pumped, sessions) := pumpSessions picked visible now w.sessions
  let (reaped, w) := { w with sessions := sessions }.reap
  let (opened, w) := offerAll now w.sessions.names w
  (handled, pumped ++ reaped ++ opened, w)

/-- Pumps all sessions; counts the frames. -/
def pump (w : Workspace) (visible : String → Bool) (now : Nat) :
    Nat × List HostCall × Workspace :=
  w.pumpWhere (fun _ => true) visible now

/-- Pumps the sessions that are due at a time; counts the frames. -/
def pumpDue (w : Workspace) (time : Nat) (visible : String → Bool) (now : Nat) :
    Nat × List HostCall × Workspace :=
  w.pumpWhere (fun s => s.isDue time) visible now

end LanguageClient.Workspace
