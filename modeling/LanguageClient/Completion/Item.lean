import LanguageClient.Edit

/-!
# Completion items

What a server offers at a caret: a label, and how the item is to be
inserted. Kinds the client does not know keep their code.
-/
namespace LanguageClient

/-- What a completion item stands for. -/
inductive ItemKind where
  | text
  | method
  | function
  | constructor
  | field
  | variableKind
  | classKind
  | interface
  | module
  | property
  | unit
  | value
  | enum
  | keyword
  | snippet
  | color
  | file
  | reference
  | folder
  | enumMember
  | constant
  | struct
  | event
  | operator
  | typeParameter
  | other (code : Nat)
  deriving DecidableEq, Repr, Inhabited

namespace ItemKind

def ofCode : Nat → ItemKind
  | 1 => text
  | 2 => method
  | 3 => function
  | 4 => constructor
  | 5 => field
  | 6 => variableKind
  | 7 => classKind
  | 8 => interface
  | 9 => module
  | 10 => property
  | 11 => unit
  | 12 => value
  | 13 => enum
  | 14 => keyword
  | 15 => snippet
  | 16 => color
  | 17 => file
  | 18 => reference
  | 19 => folder
  | 20 => enumMember
  | 21 => constant
  | 22 => struct
  | 23 => event
  | 24 => operator
  | 25 => typeParameter
  | code => other code

def code : ItemKind → Nat
  | text => 1
  | method => 2
  | function => 3
  | constructor => 4
  | field => 5
  | variableKind => 6
  | classKind => 7
  | interface => 8
  | module => 9
  | property => 10
  | unit => 11
  | value => 12
  | enum => 13
  | keyword => 14
  | snippet => 15
  | color => 16
  | file => 17
  | reference => 18
  | folder => 19
  | enumMember => 20
  | constant => 21
  | struct => 22
  | event => 23
  | operator => 24
  | typeParameter => 25
  | other code => code

def name : ItemKind → String
  | text => "Text"
  | method => "Method"
  | function => "Function"
  | constructor => "Constructor"
  | field => "Field"
  | variableKind => "Variable"
  | classKind => "Class"
  | interface => "Interface"
  | module => "Module"
  | property => "Property"
  | unit => "Unit"
  | value => "Value"
  | enum => "Enum"
  | keyword => "Keyword"
  | snippet => "Snippet"
  | color => "Color"
  | file => "File"
  | reference => "Reference"
  | folder => "Folder"
  | enumMember => "EnumMember"
  | constant => "Constant"
  | struct => "Struct"
  | event => "Event"
  | operator => "Operator"
  | typeParameter => "TypeParameter"
  | other code => "Other(" ++ toString code ++ ")"

/-- Whether inserting the item makes a call. -/
def isCallable : ItemKind → Bool
  | method => true
  | function => true
  | constructor => true
  | _ => false

def decode : Decoder ItemKind := fun j =>
  ofCode <$> Decoder.nat64 j

def toJson (k : ItemKind) : Json :=
  .int k.code

end ItemKind

/-- How the text of an item is meant. -/
inductive InsertFormat where
  | plain
  | snippet
  deriving DecidableEq, Repr, Inhabited

namespace InsertFormat

/-- The format with a code; an unknown one is plain. -/
def ofCode : Nat → InsertFormat
  | 2 => snippet
  | _ => plain

def code : InsertFormat → Nat
  | plain => 1
  | snippet => 2

def decode : Decoder InsertFormat := fun j =>
  ofCode <$> Decoder.nat64 j

def toJson (f : InsertFormat) : Json :=
  .int f.code

end InsertFormat

/-- An edit with one range for inserting and one for replacing. -/
structure InsertReplaceEdit where
  newText : String
  insert : Range
  replace : Range
  deriving DecidableEq, Repr, Inhabited

namespace InsertReplaceEdit

def fields : Fields (String × Range × Range × Unit) :=
  .required "newText" Decoder.string (.required "insert" Range.decode
    (.required "replace" Range.decode .done))

def decode : Decoder InsertReplaceEdit := fun j =>
  (fun (newText, insert, replace, ()) => ⟨newText, insert, replace⟩) <$>
    fields.read "InsertReplaceEdit" j

def toJson (e : InsertReplaceEdit) : Json :=
  .obj [("insert", e.insert.toJson), ("newText", .str e.newText), ("replace", e.replace.toJson)]

end InsertReplaceEdit

/-- The edit a completion item brings with it. -/
inductive ItemEdit where
  | edit (e : TextEdit)
  | insertReplace (e : InsertReplaceEdit)
  deriving DecidableEq, Repr, Inhabited

namespace ItemEdit

/-- The range that is replaced; of two ranges the one for inserting. -/
def range : ItemEdit → Range
  | edit e => e.range
  | insertReplace e => e.insert

def newText : ItemEdit → String
  | edit e => e.newText
  | insertReplace e => e.newText

def decode : Decoder ItemEdit :=
  Decoder.orElse "CompletionTextEdit" (fun j => edit <$> TextEdit.decode j)
    (fun j => insertReplace <$> InsertReplaceEdit.decode j)

def toJson : ItemEdit → Json
  | edit e => e.toJson
  | insertReplace e => e.toJson

end ItemEdit

structure CompletionItem where
  label : String
  kind : Option ItemKind
  detail : Option String
  sortText : Option String
  filterText : Option String
  insertText : Option String
  insertTextFormat : Option InsertFormat
  textEdit : Option ItemEdit
  additionalTextEdits : List TextEdit
  preselect : Option Bool
  deriving DecidableEq, Repr, Inhabited

namespace CompletionItem

/-- Whether the item's own text is a template. -/
def isSnippet (item : CompletionItem) : Bool :=
  item.insertTextFormat = some .snippet

def fields :
    Fields (String × Option ItemKind × Option String × Option String × Option String ×
      Option String × Option InsertFormat × Option ItemEdit × List TextEdit × Option Bool × Unit) :=
  .required "label" Decoder.string (.optional "kind" ItemKind.decode
    (.optional "detail" Decoder.string (.optional "sortText" Decoder.string
      (.optional "filterText" Decoder.string (.optional "insertText" Decoder.string
        (.optional "insertTextFormat" InsertFormat.decode (.optional "textEdit" ItemEdit.decode
          (.defaulted "additionalTextEdits" (Decoder.list TextEdit.decode) []
            (.optional "preselect" Decoder.bool .done)))))))))

def decode : Decoder CompletionItem := fun j =>
  (fun (label, kind, detail, sortText, filterText, insertText, insertTextFormat, textEdit,
      additionalTextEdits, preselect, ()) =>
    ⟨label, kind, detail, sortText, filterText, insertText, insertTextFormat, textEdit,
      additionalTextEdits, preselect⟩) <$> fields.read "CompletionItem" j

def toJson (item : CompletionItem) : Json :=
  .obj ((if item.additionalTextEdits.isEmpty then []
      else [("additionalTextEdits", .arr (item.additionalTextEdits.map TextEdit.toJson))]) ++
    Json.optional "detail" (item.detail.map .str) ++
    Json.optional "filterText" (item.filterText.map .str) ++
    Json.optional "insertText" (item.insertText.map .str) ++
    Json.optional "insertTextFormat" (item.insertTextFormat.map InsertFormat.toJson) ++
    Json.optional "kind" (item.kind.map ItemKind.toJson) ++
    [("label", .str item.label)] ++
    Json.optional "preselect" (item.preselect.map .bool) ++
    Json.optional "sortText" (item.sortText.map .str) ++
    Json.optional "textEdit" (item.textEdit.map ItemEdit.toJson))

end CompletionItem

structure CompletionList where
  isIncomplete : Bool
  items : List CompletionItem
  deriving DecidableEq, Repr

namespace CompletionList

def empty : CompletionList := ⟨false, []⟩

instance : Inhabited CompletionList := ⟨empty⟩

def fields : Fields (Bool × List CompletionItem × Unit) :=
  .defaulted "isIncomplete" Decoder.bool false
    (.defaulted "items" (Decoder.list CompletionItem.decode) [] .done)

def decode : Decoder CompletionList := fun j =>
  (fun (isIncomplete, items, ()) => ⟨isIncomplete, items⟩) <$> fields.read "CompletionList" j

def toJson (l : CompletionList) : Json :=
  .obj [("isIncomplete", .bool l.isIncomplete), ("items", .arr (l.items.map CompletionItem.toJson))]

end CompletionList

end LanguageClient
