import LanguageClient.CommandLine.Language
import LanguageClient.CommandLine.Options
import LanguageClient.Configuration.File
import LanguageClient.Configuration.Launch

/-!
# What has to hold before servers are started

The command line stops with a `StartError` when there is nothing to start or
nothing to open. Entries that cannot be launched are left out.

* `languageOf` chooses the language a file is opened in.
* `launches` splits the entries into those that can be launched and the rest.
-/
namespace LanguageClient

inductive StartError where
  | command (e : CommandError)
  | configuration (path : String) (e : FileError)
  | noServers (path : String)
  | cannotOpen (path : String)
  | cannotRead (path : String)
  | unknownLanguage (path : String)
  | notAnAddress (path : String)
  | nothingStarted
  deriving DecidableEq, Repr

namespace StartError

def message : StartError → String
  | command e => e.message
  | configuration path .unreadable => "failed to read " ++ path
  | configuration path .invalid => "failed to parse " ++ path
  | noServers path => "no language servers configured in " ++ path
  | cannotOpen path => "opening " ++ path
  | cannotRead path => "reading " ++ path
  | unknownLanguage path => "cannot tell the language of " ++ path ++ "; pass --language"
  | notAnAddress path => "cannot convert path to file URI: " ++ path
  | nothingStarted => "no language server could be started"

end StartError

namespace CommandLine

/-- The language a file is opened in: the one asked for, else that of its extension. -/
def languageOf (o : CommandOptions) (path : String) : Except StartError String :=
  match o.language <|> FileLanguage.ofPath? path with
  | some language => .ok language
  | none => .error (.unknownLanguage path)

/-- The entries that can be launched, and why the others cannot. -/
def launches (c : Configuration) (env : Environment) :
    List Launch × List (String × LaunchError) :=
  let results := c.servers.map fun (name, e) => (name, e.launch name env)
  (results.filterMap fun (_, r) => r.toOption,
    results.filterMap fun (name, r) =>
      match r with
      | .ok _ => none
      | .error e => some (name, e))

end CommandLine

end LanguageClient
