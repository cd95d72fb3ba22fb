import LanguageClient.Diff.Merge
import LanguageClient.Edit

/-!
# Keeping a server's copy of a document

How much of a change a server wants to be told (`SyncKind`), and the change
events that bring its copy from the old text to the new one. Incremental
events come from a comparison of the lines; each speaks of the document as
the events before it left it. They are checked by applying them, and if they
do not give the new text, all of it is sent.

* `changes` is empty for equal texts, whatever the kind.
-/
namespace LanguageClient

/-- How a server wants to be told of changes. -/
inductive SyncKind where
  | none
  | full
  | incremental
  deriving DecidableEq, Repr, Inhabited

namespace SyncKind

/-- The kind with a code; an unknown one is `none`. -/
def ofCode : Nat → SyncKind
  | 1 => full
  | 2 => incremental
  | _ => none

/-- The kind that the options of a registration ask for. -/
def ofOptions (options : Json) : SyncKind :=
  match (options.get? "syncKind").bind Json.nat? with
  | some code => ofCode code
  | Option.none => none

def name : SyncKind → String
  | none => "None"
  | full => "Full"
  | incremental => "Incremental"

end SyncKind

namespace Sync

def lineNumber (n : Nat) : UInt32 :=
  UInt32.ofNat (min n 0xFFFFFFFF)

/-- The range of `lines`, old lines that now start at line `start`. It ends before the next line,
or behind an unterminated last one. -/
def removedRange (lines : List (List Char)) (start : Nat) : Range :=
  let last := lines.getLast?.getD []
  let stop : Position :=
    if Line.isTerminated last then ⟨lineNumber (start + lines.length), 0⟩
    else ⟨lineNumber (start + lines.length - 1), UInt32.ofNat (Utf16.length last)⟩
  ⟨⟨lineNumber start, 0⟩, stop⟩

/-- Adds an insertion to the events, which are given last first. An event just before it that
empties a range at the same place takes the text. -/
def addInsertion (line : Nat) (text : String) : List ChangeEvent → List ChangeEvent
  | last :: events =>
    if last.text = "" ∧ last.range.map Range.start = some ⟨lineNumber line, 0⟩ then
      { last with text := text } :: events
    else .ranged (.point ⟨lineNumber line, 0⟩) text :: last :: events
  | [] => [.ranged (.point ⟨lineNumber line, 0⟩) text]

/-- Adds the event of one block to the events, which are given last first. -/
def addBlock (old new : List (List Char)) (events : List ChangeEvent) (b : Diff.Block) :
    List ChangeEvent :=
  let text := String.ofList (b.newItems new).flatten
  match b.kind with
  | .equal => events
  | .delete => .ranged (removedRange (b.oldItems old) b.newStart) "" :: events
  | .insert => addInsertion b.newStart text events
  | .replace => .ranged (removedRange (b.oldItems old) b.newStart) text :: events

/-- The events of a comparison of the lines. -/
def lineChanges (old new : List (List Char)) : List ChangeEvent :=
  ((Diff.blocks old new).foldl (addBlock old new) []).reverse

/-- The events of a comparison of the lines, or the whole new text if they do not give it. -/
def incrementalChanges (old new : String) : List ChangeEvent :=
  let events := lineChanges (Line.split old.toList) (Line.split new.toList)
  if ChangeEvent.applyAll? old.toList events = some new.toList then events else [.full new]

/-- The events that bring the old text to the new one. -/
def changes (kind : SyncKind) (old new : String) : List ChangeEvent :=
  if old = new then []
  else
    match kind with
    | .none => []
    | .full => [.full new]
    | .incremental => incrementalChanges old new

end Sync

end LanguageClient
