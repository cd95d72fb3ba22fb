import LanguageClient.Client
import LanguageClient.Configuration.Basic
import LanguageClient.Frame.Basic
import LanguageClient.Text.OsString
import LanguageClient.Uri.Basic

/-!
# Launching a server

Before a server is started its entry is checked and turned into what is
needed to start it. A leading `~/` stands for the home directory. Paths are
added behind those that a variable of the environment has already.

* `ServerEntry.launch` checks an entry.
-/
namespace LanguageClient

/-- Where a launch takes place. -/
structure Environment where
  os : String
  /-- The home directory, if there is one. -/
  home : Option OsString
  /-- The variables that are set. -/
  vars : Keyed OsString
  deriving Repr, Inhabited

namespace Environment

/-- A text in which a leading `~/` is the home directory. -/
def expand (env : Environment) (text : String) : String :=
  match env.home, text.toList with
  | some home, '~' :: '/' :: rest => (home.join (String.ofList rest)).lossy
  | _, _ => text

end Environment

/-- How a server is reached. -/
inductive Endpoint where
  | process (program : String) (arguments : List String) (directory : Option String)
      (vars : Keyed OsString) (captureStderr : Bool)
  | socket (host : String) (port : UInt16)
  deriving DecidableEq, Repr

/-- What is needed to start a server. -/
structure Launch where
  name : String
  endpoint : Endpoint
  policy : MissingLength
  client : ClientOptions
  deriving Repr

inductive LaunchError where
  | missingCommand (os : String)
  | noLanguages
  | invalidPath (varName : String)
  | unnamedVariable
  deriving DecidableEq, Repr

namespace LaunchError

def message : LaunchError → String
  | missingCommand os => "no start command for " ++ os
  | noLanguages => "language_ids is empty"
  | invalidPath varName =>
    "invalid env_paths entry for " ++ varName ++ ": path segment contains separator `:`"
  | unnamedVariable => "env_paths has an empty variable name"

end LaunchError

namespace ServerEntry

def standardHost : String := "127.0.0.1"

/-- The value of a variable with paths added to the list in it. -/
def extended (env : Environment) (varName : String) (paths : List String) :
    Except LaunchError OsString :=
  if varName = "" then .error .unnamedVariable
  else
    let present := ((env.vars.get? varName).map OsString.parts).getD []
    let added := paths.map fun path => OsString.ofText (env.expand path)
    match OsString.joinParts? (present ++ added) with
    | none => .error (.invalidPath varName)
    | some value => .ok value

/-- The variables that a server is started with. -/
def extendedAll (env : Environment) :
    Keyed (List String) → Except LaunchError (Keyed OsString)
  | [] => .ok []
  | (varName, paths) :: rest =>
    match extended env varName paths with
    | .error e => .error e
    | .ok value =>
      match extendedAll env rest with
      | .error e => .error e
      | .ok others => .ok ((varName, value) :: others)

/-- How a server is reached: over its socket if it has a port, else as a process. -/
def endpoint (e : ServerEntry) (env : Environment) : Except LaunchError Endpoint :=
  match e.tcpPort with
  | some port => .ok (.socket (e.tcpHost.getD standardHost) port)
  | none =>
    match e.command.bind (·.forSystem? env.os) with
    | none => .error (.missingCommand env.os)
    | some [] => .error (.missingCommand env.os)
    | some (program :: arguments) =>
      match extendedAll env e.envPaths with
      | .error err => .error err
      | .ok values =>
        .ok (.process (env.expand program) (arguments.map env.expand)
          (e.workDir.map env.expand) values e.logStderr)

def launch (e : ServerEntry) (name : String) (env : Environment) : Except LaunchError Launch :=
  if e.languageIds.isEmpty then .error .noLanguages
  else
    match e.endpoint env with
    | .error err => .error err
    | .ok endpoint =>
      .ok
        { name, endpoint
          policy := if e.lenientContentLength then .readAvailable else .reject
          client :=
            { languageIds := e.languageIds
              rootUri := (e.workDir.map env.expand).bind Uri.ofPath?
              initializationOptions := e.initializationOptions
              settings := e.settings } }

end ServerEntry

end LanguageClient
