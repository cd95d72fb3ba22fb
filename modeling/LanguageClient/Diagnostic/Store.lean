import LanguageClient.Diagnostic.Basic
import LanguageClient.Keyed

/-!
# The diagnostics of all documents

`byLine` sums up the diagnostics of a document for a gutter: one entry a
line, the most severe message first. The store keeps the latest diagnostics
of every document; those that come while a document is hidden are held back
and the document is dirty until it is shown.
-/
namespace LanguageClient

structure LineDiagnostics where
  line : UInt32
  severity : Option Severity
  text : String
  deriving DecidableEq, Repr, Inhabited

namespace Diagnostic

/-- The place of a severity on its line; a diagnostic without one comes last. -/
def severityRank (d : Diagnostic) : Nat :=
  match d.severity with
  | some s => s.code
  | none => 255

/-- Adds a diagnostic behind the others of its line; the lines are in order. -/
def addToLine (d : Diagnostic) :
    List (UInt32 × List Diagnostic) → List (UInt32 × List Diagnostic)
  | [] => [(d.line, [d])]
  | (line, ds) :: rest =>
    if d.line < line then (d.line, [d]) :: (line, ds) :: rest
    else if d.line = line then (line, ds ++ [d]) :: rest
    else (line, ds) :: addToLine d rest

/-- The diagnostics of each line, as they came. -/
def groups (ds : List Diagnostic) : List (UInt32 × List Diagnostic) :=
  ds.foldl (fun lines d => addToLine d lines) []

/-- The diagnostics of one line, the most severe first. -/
def summarize (line : UInt32) (ds : List Diagnostic) : LineDiagnostics :=
  let ds := ds.mergeSort fun a b => a.severityRank ≤ b.severityRank
  ⟨line, ds.head?.bind Diagnostic.severity, "\n".intercalate (ds.map gutterText)⟩

def byLine (ds : List Diagnostic) : List LineDiagnostics :=
  (groups ds).map fun (line, ds) => summarize line ds

end Diagnostic

/-- The latest diagnostics of every document, and the documents whose latest ones the host has
not been given. -/
structure DiagnosticStore where
  data : Keyed (List Diagnostic)
  dirty : List String
  deriving Repr, Inhabited

namespace DiagnosticStore

def empty : DiagnosticStore := ⟨[], []⟩

def get (s : DiagnosticStore) (uri : String) : List Diagnostic :=
  (s.data.get? uri).getD []

/-- Whether a document's diagnostics are held back. -/
def isDirty (s : DiagnosticStore) (uri : String) : Bool :=
  s.dirty.contains uri

def byLine (s : DiagnosticStore) (uri : String) : List LineDiagnostics :=
  Diagnostic.byLine (s.get uri)

/-- Takes in the diagnostics of a document; an empty list clears them. They are held back while
the document is hidden. -/
def publish (s : DiagnosticStore) (uri : String) (items : List Diagnostic) (visible : Bool) :
    DiagnosticStore :=
  { data := if items.isEmpty then s.data.erase uri else s.data.put uri items
    dirty :=
      if visible then s.dirty.filter (· ≠ uri)
      else if s.dirty.contains uri then s.dirty else s.dirty ++ [uri] }

/-- Marks a document as shown; gives its diagnostics if they were held back. -/
def shown (s : DiagnosticStore) (uri : String) : Option (List Diagnostic) × DiagnosticStore :=
  if s.isDirty uri then (some (s.get uri), { s with dirty := s.dirty.filter (· ≠ uri) })
  else (none, s)

def clear (s : DiagnosticStore) (uri : String) : DiagnosticStore :=
  ⟨s.data.erase uri, s.dirty.filter (· ≠ uri)⟩

def hasErrors (s : DiagnosticStore) (uri : String) : Bool :=
  (s.get uri).any fun d => d.severity = some .error

/-- The documents with diagnostics, those with errors first, each part in the order of uris. -/
def uris (s : DiagnosticStore) : List String :=
  s.data.names.mergeSort fun a b =>
    match s.hasErrors a, s.hasErrors b with
    | true, false => true
    | false, true => false
    | _, _ => a ≤ b

def count (s : DiagnosticStore) (severity : Severity) : Nat :=
  (s.data.values.flatten.filter fun d => d.severity = some severity).length

/-- How many errors and warnings there are, or nothing when there are no diagnostics. -/
def status (s : DiagnosticStore) : String :=
  if s.data.isEmpty then ""
  else "E:" ++ toString (s.count .error) ++ " W:" ++ toString (s.count .warning)

end DiagnosticStore

end LanguageClient
