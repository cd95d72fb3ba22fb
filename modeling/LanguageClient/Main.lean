import LanguageClient.CommandLine.Start

/-!
# The command line

Reads the options, the configuration and the file, and checks the entries of
the servers. Starting processes and opening sockets is the business of the
surrounding system, so without one no server is started.
-/
namespace LanguageClient.CommandLine

def refuse {α : Type} (e : StartError) : ExceptT StartError IO α :=
  throw e

def bytes? (path : String) : IO (Option (List UInt8)) := do
  try
    let bytes ← IO.FS.readBinFile path
    return some bytes.toList
  catch _ => return none

/-- Where a path leads, if there is something. -/
def resolved? (path : String) : IO (Option String) := do
  try
    let target ← IO.FS.realPath path
    return some target.toString
  catch _ => return none

/-- The configuration of the user; a missing file has no servers. -/
def configuration (path : String) : ExceptT StartError IO Configuration := do
  if (← resolved? path).isNone then refuse (.noServers path)
  match ← bytes? path with
  | none => refuse (.configuration path .unreadable)
  | some bytes =>
    match Configuration.ofFile bytes with
    | .error e => refuse (.configuration path e)
    | .ok c => if c.servers.isEmpty then refuse (.noServers path) else return c

def textOf (path : String) : ExceptT StartError IO String := do
  match (← bytes? path).bind Utf8.toString? with
  | none => refuse (.cannotRead path)
  | some text => return text

/-- The values of those variables that are set. -/
def variablesSet (names : List String) : IO (Keyed String) :=
  names.filterMapM fun name => do return (← IO.getEnv name).map (name, ·)

def run (words : List String) : ExceptT StartError IO Unit := do
  match CommandOptions.read words with
  | .error e => refuse (.command e)
  | .ok o =>
    let home := (← IO.getEnv "HOME").getD "~"
    let c ← configuration (Configuration.filePath home)
    let some path ← resolved? o.file | refuse (.cannotOpen o.file)
    let _ ← textOf path
    let _ ← languageOf o path
    if (Uri.ofPath? path).isNone then refuse (.notAnAddress path)
    let values ← variablesSet (c.servers.flatMap fun (_, e) => e.envPaths.names)
    let (_, refused) := launches c ⟨"linux", home, values⟩
    for (name, e) in refused do
      IO.eprintln (name ++ ": " ++ e.message)
    refuse .nothingStarted

end LanguageClient.CommandLine

/-- Runs the command line; an error goes to the error stream and gives exit code 1. -/
def main (words : List String) : IO UInt32 := do
  match ← (LanguageClient.CommandLine.run words).run with
  | .ok () => return 0
  | .error e =>
    IO.eprintln ("Error: " ++ e.message)
    return 1
