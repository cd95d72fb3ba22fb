import LanguageClient.Keyed
import LanguageClient.Sync

/-!
# Documents

What the client knows of a document is what its server was last told: the
text, its version, and the server it is open with. `syncTo` moves that on to
a new text and says what the server must be told.
-/
namespace LanguageClient

/-- A document as its server knows it. -/
structure Document where
  uri : String
  path : Option String
  languageId : String
  version : Int
  text : String
  server : Option String
  deriving DecidableEq, Repr, Inhabited

/-- Change events and the version they lead to. -/
structure ChangeBatch where
  version : Int
  events : List ChangeEvent
  deriving DecidableEq, Repr

namespace Document

/-- A document no server has been told of. -/
def new (uri : String) (path : Option String) (languageId text : String) : Document :=
  { uri, path, languageId, version := 1, text, server := none }

def isOpen (d : Document) : Bool :=
  d.server.isSome

/-- The document with another text of which nobody is told. -/
def resetText (d : Document) (text : String) : Document :=
  { d with text := text }

def setLanguage (d : Document) (languageId : String) : Document :=
  { d with languageId := languageId }

/-- The document at a new text and what the server must be told; nothing, and the same document,
if the kind wants no changes or there are none. -/
def syncTo (d : Document) (kind : SyncKind) (text : String) : Option ChangeBatch × Document :=
  let events := Sync.changes kind d.text text
  if events.isEmpty then (none, d)
  else
    let d := { d with text := text, version := d.version + 1 }
    (some ⟨d.version, events⟩, d)

end Document

/-- The documents by uri, in the order of the uris. -/
abbrev DocumentStore := Keyed Document

namespace DocumentStore

/-- Adds a document unless one with its uri is there; gives the one that then is. -/
def track (docs : DocumentStore) (d : Document) : Document × DocumentStore :=
  match docs.get? d.uri with
  | some known => (known, docs)
  | none => (d, docs.insert d.uri d)

def openedWith (docs : DocumentStore) (server : String) : List String :=
  (docs.values.filter fun d => d.server = some server).map Document.uri

/-- The documents without the ones open with a server being open. -/
def detach (docs : DocumentStore) (server : String) : DocumentStore :=
  docs.map fun (uri, d) => (uri, if d.server = some server then { d with server := none } else d)

end DocumentStore

end LanguageClient
