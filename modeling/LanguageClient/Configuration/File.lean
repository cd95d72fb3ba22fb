import LanguageClient.Configuration.Basic
import LanguageClient.Text.Utf8
import LanguageClient.Toml.Document

/-!
# Configuration files

A configuration is kept in a TOML file below the home directory.
-/
namespace LanguageClient

inductive FileError where
  /-- The file is missing or is not text. -/
  | unreadable
  /-- The text is not a document, or not one of a configuration. -/
  | invalid
  deriving DecidableEq, Repr

namespace Configuration

def filePath (home : String) : String :=
  home ++ "/.tether/config.toml"

def ofDocument? (text : String) : Option Configuration := do
  let value ← Toml.parse? text
  (decode value).toOption

def ofFile (bytes : List UInt8) : Except FileError Configuration :=
  match Utf8.toString? bytes with
  | none => .error .unreadable
  | some text =>
    match ofDocument? text with
    | some c => .ok c
    | none => .error .invalid

end Configuration

end LanguageClient
