import LanguageClient.Json.Basic

/-!
# Tables of a TOML document

A document grows its tables line by line. A table is written once, by its
header or in braces. The header of a table inside it implies it before that,
and a dotted key builds a table that only dotted keys in the same place add
to. Several headers in double brackets make a list of tables, of which the
last is the one that grows.
-/
namespace LanguageClient.Toml

/-- How a table came about. -/
inductive TableOrigin where
  | written
  | implied
  | dotted
  deriving DecidableEq, Repr

/-- What a name stands for while the document is read. -/
inductive Node where
  | value (v : Json)
  | table (origin : TableOrigin) (members : List (String × Node))
  | tables (items : List (List (String × Node)))
  deriving Repr, Inhabited

abbrev Members := List (String × Node)

namespace Members

/-- Gives a name that is there something else to stand for. -/
def replace (name : String) (node : Node) (ms : Members) : Members :=
  ms.map fun (key, old) => (key, if key = name then node else old)

/-- Changes the last of some tables. -/
def changeLast? (change : Members → Option Members) : List Members → Option (List Members)
  | [] => none
  | [ms] => (change ms).map ([·])
  | ms :: rest => (changeLast? change rest).map (ms :: ·)

/-- Changes the table at the end of a path. Tables that are missing are implied; a list of tables
stands for its last. -/
def changeAt? (change : Members → Option Members) : List String → Members → Option Members
  | [], ms => change ms
  | name :: path, ms =>
    match ms.lookup name with
    | none => (changeAt? change path []).map fun inner => ms ++ [(name, .table .implied inner)]
    | some (.value _) => none
    | some (.table origin inner) =>
      (changeAt? change path inner).map fun inner => ms.replace name (.table origin inner)
    | some (.tables items) =>
      (changeLast? (changeAt? change path) items).map fun items => ms.replace name (.tables items)

/-- Opens the table that a header names last. -/
def openTable? (name : String) (ms : Members) : Option Members :=
  match ms.lookup name with
  | none => some (ms ++ [(name, .table .written [])])
  | some (.table .implied inner) => some (ms.replace name (.table .written inner))
  | some _ => none

/-- Adds a table to the list that a header in double brackets names last. -/
def addTable? (name : String) (ms : Members) : Option Members :=
  match ms.lookup name with
  | none => some (ms ++ [(name, .tables [[]])])
  | some (.tables items) => some (ms.replace name (.tables (items ++ [[]])))
  | some _ => none

/-- Adds a value under a key with some parts. `isOpen` says whether the table takes a name itself
and not only in tables below. -/
def put? (v : Json) (isOpen : Bool) : List String → Members → Option Members
  | [], _ => none
  | [name], ms =>
    if isOpen && (ms.lookup name).isNone then some (ms ++ [(name, .value v)]) else none
  | name :: path, ms =>
    match ms.lookup name with
    | none => (put? v true path []).map fun inner => ms ++ [(name, .table .dotted inner)]
    | some (.table .dotted inner) =>
      (put? v true path inner).map fun inner => ms.replace name (.table .dotted inner)
    | some (.table .implied inner) =>
      (put? v false path inner).map fun inner => ms.replace name (.table .implied inner)
    | some (.tables items) =>
      (changeLast? (put? v false path) items).map fun items => ms.replace name (.tables items)
    | some _ => none

end Members

mutual

/-- The value that a name stands for. -/
def Node.toJson : Node → Json
  | .value v => v
  | .table _ members => .object (membersToJson members)
  | .tables items => .arr (itemsToJson items)

def membersToJson : List (String × Node) → List (String × Json)
  | [] => []
  | (name, node) :: members => (name, node.toJson) :: membersToJson members

def itemsToJson : List (List (String × Node)) → List Json
  | [] => []
  | members :: items => .object (membersToJson members) :: itemsToJson items

end

end LanguageClient.Toml
