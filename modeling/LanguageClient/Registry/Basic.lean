import LanguageClient.Glob.Parser
import LanguageClient.Json.Decode
import LanguageClient.Method

/-!
# Registered capabilities

What a server can do is a list of registrations: a method, the documents it
covers and options. Some come with the answer to the handshake and stay;
others are registered and taken back while the connection lasts. The first
registration of a method that covers a document is the one that counts.

* `Registry.options?` is the options that hold for a method and a document.
-/
namespace LanguageClient

/-- One entry of a document selector: a language, a path pattern, or both. -/
structure DocumentFilter where
  language : Option String
  pattern : Option String
  deriving DecidableEq, Repr, Inhabited

namespace DocumentFilter

/-- Whether a path matches a pattern; an invalid pattern matches none. A document without a path
has the empty one. -/
def matchesPattern (pattern : String) (path : Option String) : Bool :=
  match Glob.parse? pattern with
  | some tokens => Glob.matchesPath tokens (path.getD "")
  | none => false

/-- Whether a document is covered: all that is given must hold, and something must be given. -/
def covers (f : DocumentFilter) (languageId : String) (path : Option String) : Bool :=
  (f.language.isSome || f.pattern.isSome) &&
    f.language.all (· == languageId) && f.pattern.all (matchesPattern · path)

def ofJson (j : Json) : DocumentFilter :=
  ⟨(j.get? "language").bind Json.str?, (j.get? "pattern").bind Json.str?⟩

end DocumentFilter

inductive RegistrationSource where
  | handshake
  | dynamic
  deriving DecidableEq, Repr, Inhabited

/-- A capability that a server has. -/
structure Registration where
  id : String
  method : String
  selector : List DocumentFilter
  options : Json
  source : RegistrationSource
  deriving DecidableEq, Repr, Inhabited

namespace Registration

/-- The document selector in some options; none counts as empty. -/
def selectorOf (options : Json) : List DocumentFilter :=
  match (options.get? "documentSelector").bind Json.arr? with
  | some filters => filters.map DocumentFilter.ofJson
  | none => []

/-- A registration whose selector is in its options. -/
def ofOptions (id method : String) (options : Json) (source : RegistrationSource) :
    Registration :=
  ⟨id, method, selectorOf options, options, source⟩

/-- Whether a document is covered. An empty selector covers it only for methods of the
workspace. -/
def covers (r : Registration) (languageId : String) (path : Option String) : Bool :=
  if r.selector.isEmpty then r.method.startsWith "workspace/"
  else r.selector.any fun f => f.covers languageId path

end Registration

structure RegistrationRequest where
  id : String
  method : String
  options : Option Json
  deriving DecidableEq, Repr, Inhabited

namespace RegistrationRequest

def fields : Fields (String × String × Option Json × Unit) :=
  .required "id" Decoder.string (.required "method" Decoder.string
    (.optional "registerOptions" Decoder.any .done))

def decode : Decoder RegistrationRequest := fun j =>
  (fun (id, method, options, ()) => ⟨id, method, options⟩) <$> fields.read "RegistrationRequest" j

end RegistrationRequest

/-- A registration that a server takes back. -/
structure UnregistrationRequest where
  id : String
  method : String
  deriving DecidableEq, Repr, Inhabited

namespace UnregistrationRequest

def fields : Fields (String × String × Unit) :=
  .required "id" Decoder.string (.required "method" Decoder.string .done)

def decode : Decoder UnregistrationRequest := fun j =>
  (fun (id, method, ()) => ⟨id, method⟩) <$> fields.read "UnregistrationRequest" j

/-- Whether a registration is meant. -/
def names (u : UnregistrationRequest) (r : Registration) : Bool :=
  u.id == r.id && u.method == r.method

end UnregistrationRequest

/-- The registrations of a server, in the order of their coming. -/
structure Registry where
  registrations : List Registration
  deriving DecidableEq, Repr, Inhabited

namespace Registry

def empty : Registry := ⟨[]⟩

/-- The registration that a request asks for. -/
def granted (r : RegistrationRequest) : Registration :=
  let options :=
    match r.options with
    | none => .obj []
    | some .null => .obj []
    | some v => v
  .ofOptions r.id r.method options .dynamic

def register (reg : Registry) (requests : List RegistrationRequest) : Registry :=
  ⟨reg.registrations ++ requests.map granted⟩

/-- Whether a registration stays when some are taken back; those of the handshake always do. -/
def stays (requests : List UnregistrationRequest) (r : Registration) : Bool :=
  r.source = .handshake || !requests.any (·.names r)

def unregister (reg : Registry) (requests : List UnregistrationRequest) : Registry :=
  ⟨reg.registrations.filter (stays requests)⟩

/-- The options of the first registration of a method that covers a document. -/
def options? (reg : Registry) (method languageId : String) (path : Option String) : Option Json :=
  (reg.registrations.find? fun r => r.method == method && r.covers languageId path).map
    Registration.options

/-- Whether a method is there for a document. -/
def supports (reg : Registry) (method languageId : String) (path : Option String) : Bool :=
  (reg.options? method languageId path).isSome

end Registry

end LanguageClient
