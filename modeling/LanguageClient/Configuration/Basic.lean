import LanguageClient.Completion.Settings
import LanguageClient.Json.Decode
import LanguageClient.Keyed

/-!
# Configuration

What a user sets up: the servers by name, and completion. A server is
started by a command, which may depend on the operating system, or reached
over a socket.
-/
namespace LanguageClient

/-- The command that starts a server, one for all operating systems or one for each family. -/
inductive ServerCommand where
  | always (words : List String)
  | byFamily (windows macos unix : Option (List String))
  deriving DecidableEq, Repr, Inhabited

namespace ServerCommand

/-- The words of the command on an operating system; an empty command is none. The Mac falls back
on the command for Unix, and any other system uses it. -/
def forSystem? (c : ServerCommand) (os : String) : Option (List String) :=
  let words :=
    match c with
    | always words => some words
    | byFamily windows macos unix =>
      if os = "windows" then windows
      else if os = "macos" then macos <|> unix
      else unix
  words.filter fun w => !w.isEmpty

def fields :
    Fields (Option (List String) × Option (List String) × Option (List String) × Unit) :=
  let words := Decoder.list Decoder.string
  .optional "windows" words (.optional "macos" words (.optional "unix" words .done))

/-- Reads a command by family, which is written as an object. -/
def decodeByFamily : Decoder ServerCommand
  | .obj members =>
    (fun (windows, macos, unix, ()) => byFamily windows macos unix) <$>
      fields.read "ServerCommand" (.obj members)
  | other => .error (.wrongType other "struct variant ServerCommand")

def decode : Decoder ServerCommand :=
  Decoder.orElse "ServerCommand" (fun j => always <$> Decoder.list Decoder.string j)
    decodeByFamily

end ServerCommand

/-- What is set up for one server. -/
structure ServerEntry where
  languageIds : List String
  command : Option ServerCommand
  tcpPort : Option UInt16
  tcpHost : Option String
  /-- Where the server runs, and the root of the workspace. -/
  workDir : Option String
  /-- Paths to add to variables that hold lists of paths. -/
  envPaths : Keyed (List String)
  logStderr : Bool
  /-- Whether frames without a length are taken. -/
  lenientContentLength : Bool
  settings : Json
  initializationOptions : Option Json
  deriving Repr, Inhabited

namespace ServerEntry

def fields :
    Fields (List String × Option ServerCommand × Option UInt16 × Option String × Option String ×
      Keyed (List String) × Bool × Bool × Json × Option Json × Unit) :=
  .required "language_ids" (Decoder.list Decoder.string) (
    .optional "command" ServerCommand.decode (
    .optional "tcp_port" Decoder.uint16 (
    .optional "tcp_host" Decoder.string (
    .optional "work_dir" Decoder.string (
    .defaulted "env_paths" (Decoder.map (Decoder.list Decoder.string)) [] (
    .defaulted "log_stderr" Decoder.bool false (
    .defaulted "lenient_content_length" Decoder.bool false (
    .defaulted "settings" Decoder.any .null (
    .optional "initialization_options" Decoder.any .done)))))))))

def decode : Decoder ServerEntry := fun j =>
  (fun (languageIds, command, tcpPort, tcpHost, workDir, envPaths, logStderr,
      lenientContentLength, settings, initializationOptions, ()) =>
    { languageIds, command, tcpPort, tcpHost, workDir, envPaths, logStderr,
      lenientContentLength, settings, initializationOptions }) <$>
    fields.read "ServerConfig" j

end ServerEntry

namespace CompletionSettings

def fields : Fields (String × Bool × Unit) :=
  .defaulted "nonword_chars" Decoder.string WordSet.standardSeparators
    (.defaulted "add_call_parens" Decoder.bool true .done)

def decode : Decoder CompletionSettings := fun j =>
  (fun (separators, callParens, ()) => ⟨⟨separators.toList⟩, callParens⟩) <$>
    fields.read "CompletionConfig" j

end CompletionSettings

/-- What a user sets up. -/
structure Configuration where
  servers : Keyed ServerEntry
  completion : CompletionSettings
  deriving Repr, Inhabited

namespace Configuration

def fields : Fields (Keyed ServerEntry × CompletionSettings × Unit) :=
  .defaulted "servers" (Decoder.map ServerEntry.decode) []
    (.defaulted "completion" CompletionSettings.decode .standard .done)

def decode : Decoder Configuration := fun j =>
  (fun (servers, completion, ()) => ⟨servers, completion⟩) <$> fields.read "LspConfig" j

end Configuration

end LanguageClient
