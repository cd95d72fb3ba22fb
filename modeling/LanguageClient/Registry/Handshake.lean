import LanguageClient.Registry.Basic

/-!
# The capabilities of the handshake

The answer to the handshake says what a server can do by one flag or object
a capability. Each that is neither absent nor `false` nor `null` becomes a
registration for the configured languages; the members of an object are
merged into its options and may replace the selector.
-/
namespace LanguageClient.Registry

/-- The flag of each method in the capabilities of a server. -/
def providers : List (String × String) :=
  [(Method.completion, "completionProvider"), (Method.hover, "hoverProvider"),
    (Method.signatureHelp, "signatureHelpProvider"), (Method.definition, "definitionProvider"),
    (Method.references, "referencesProvider"), (Method.implementation, "implementationProvider"),
    (Method.declaration, "declarationProvider"),
    (Method.typeDefinition, "typeDefinitionProvider"),
    (Method.documentSymbol, "documentSymbolProvider"),
    (Method.formatting, "documentFormattingProvider"),
    (Method.rangeFormatting, "documentRangeFormattingProvider"),
    (Method.workspaceSymbol, "workspaceSymbolProvider")]

/-- The id of the registrations of the handshake. -/
def handshakeId : String := "0"

/-- Whether a flag is set: neither `false` nor `null`. -/
def isEnabled : Json → Bool
  | .bool false => false
  | .null => false
  | _ => true

/-- A flag that is there and set. -/
def enabled? (name : String) (j : Json) : Option Json :=
  (j.get? name).filter isEnabled

/-- The options that select documents of the given languages. -/
def baseOptions (languageIds : List String) : Json :=
  .obj [("documentSelector", .arr (languageIds.map fun id => .obj [("language", .str id)]))]

/-- Some options with the members of an object added; a value that is none adds nothing. -/
def merge (options : Json) : Json → Json
  | .obj members => members.foldl (fun options (name, value) => options.set name value) options
  | _ => options

/-- How documents are kept in step, as an object: a bare kind stands for opening and closing with
changes of that kind. -/
def documentSync (capabilities : Json) : Json :=
  match capabilities.get? "textDocumentSync" with
  | some (.obj members) => .obj members
  | some (.int n) => .obj [("change", .int n), ("openClose", .bool true)]
  | some (.float x) => .obj [("change", .float x), ("openClose", .bool true)]
  | _ => .obj []

/-- A registration of the handshake. -/
def offered (method : String) (options : Json) : Registration :=
  .ofOptions handshakeId method options .handshake

/-- The registrations of the capabilities that keep documents in step. -/
def syncRegistrations (capabilities : Json) (languageIds : List String) : List Registration :=
  let sync := documentSync capabilities
  let base := baseOptions languageIds
  let openClose :=
    match enabled? "openClose" sync with
    | some _ => [offered Method.didOpen base, offered Method.didClose base]
    | none => []
  let save :=
    match enabled? "save" sync with
    | some value => [offered Method.didSave (merge base value)]
    | none => []
  let change :=
    match sync.get? "change" with
    | some value =>
      [offered Method.didChange (base.set "syncKind" (.int (value.nat?.getD 0)))]
    | none => []
  openClose ++ save ++ change

/-- The registration of a method by its flag. -/
def providerRegistration? (capabilities : Json) (languageIds : List String)
    (provider : String × String) : Option Registration := do
  let (method, flag) := provider
  let value ← enabled? flag capabilities
  let base := if method.startsWith "workspace/" then .obj [] else baseOptions languageIds
  some (offered method (merge base value))

/-- The registrations that the capabilities of the handshake stand for. -/
def ofHandshake (capabilities : Json) (languageIds : List String) : Registry :=
  ⟨syncRegistrations capabilities languageIds ++
    providers.filterMap (providerRegistration? capabilities languageIds)⟩

end LanguageClient.Registry
