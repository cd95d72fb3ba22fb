import LanguageClient.Edit

/-!
# Parameters of messages to a server
-/
namespace LanguageClient.Params

def clientName : String := "tether"

def clientVersion : String := "0.0.0"

/-- The flag that says a capability may be registered while the connection lasts. -/
def dynamic : String × Json := ("dynamicRegistration", .bool true)

/-- What the client can do with documents. -/
def textDocumentCapabilities : Json :=
  .object
    [("synchronization", .object
        [dynamic, ("willSave", .bool false), ("willSaveWaitUntil", .bool false),
          ("didSave", .bool true)]),
      ("completion", .object
        [dynamic,
          ("completionItem", .object
            [("snippetSupport", .bool true), ("insertReplaceSupport", .bool true)]),
          ("contextSupport", .bool false)]),
      ("hover", .object
        [dynamic, ("contentFormat", .arr [.str "plaintext", .str "markdown"])]),
      ("signatureHelp", .object [dynamic]),
      ("definition", .object [dynamic, ("linkSupport", .bool true)]),
      ("references", .object [dynamic]),
      ("implementation", .object [dynamic, ("linkSupport", .bool true)]),
      ("declaration", .object [dynamic, ("linkSupport", .bool true)]),
      ("typeDefinition", .object [dynamic, ("linkSupport", .bool true)]),
      ("documentSymbol", .object [dynamic, ("hierarchicalDocumentSymbolSupport", .bool true)]),
      ("formatting", .object [dynamic]),
      ("rangeFormatting", .object [dynamic]),
      ("publishDiagnostics", .object [("relatedInformation", .bool false)])]

def capabilities : Json :=
  .object
    [("textDocument", textDocumentCapabilities),
      ("workspace", .object
        [("configuration", .bool true), ("workspaceFolders", .bool true),
          ("symbol", .object [dynamic])]),
      ("window", .object [("workDoneProgress", .bool true)])]

/-- The one workspace folder, by its uri. -/
def workspaceFolders (rootUri : Option String) : Json :=
  .orNull (rootUri.map fun uri => .arr [.object [("uri", .str uri), ("name", .str "workspace")]])

def handshake (processId : Nat) (rootUri : Option String) (options : Option Json) : Json :=
  .object
    ([("processId", .int processId),
        ("clientInfo", .object [("name", .str clientName), ("version", .str clientVersion)]),
        ("rootUri", .orNull (rootUri.map .str)),
        ("capabilities", capabilities),
        ("workspaceFolders", workspaceFolders rootUri)] ++
      Json.optional "initializationOptions" options)

def textDocument (uri : String) : String × Json :=
  ("textDocument", .obj [("uri", .str uri)])

def didOpen (uri languageId : String) (version : Int) (text : String) : Json :=
  .obj
    [("textDocument", .obj
      [("languageId", .str languageId), ("text", .str text), ("uri", .str uri),
        ("version", .int version)])]

def didChange (uri : String) (version : Int) (events : List ChangeEvent) : Json :=
  .obj
    [("contentChanges", .arr (events.map ChangeEvent.toJson)),
      ("textDocument", .obj [("uri", .str uri), ("version", .int version)])]

/-- The parameters that tell of a saved document, with its text if it is wanted. -/
def didSave (uri : String) (text : Option String) : Json :=
  .obj (Json.optional "text" (text.map .str) ++ [textDocument uri])

def document (uri : String) : Json :=
  .obj [textDocument uri]

def documentPosition (uri : String) (position : Position) : Json :=
  .obj [("position", position.toJson), textDocument uri]

def references (uri : String) (position : Position) : Json :=
  .obj
    [("context", .obj [("includeDeclaration", .bool true)]), ("position", position.toJson),
      textDocument uri]

/-- The parameters that ask for formatting, of a range or of all. -/
def formatting (uri : String) (options : FormattingOptions) (range : Option Range) : Json :=
  .obj ([("options", options.toJson)] ++ Json.optional "range" (range.map Range.toJson) ++
    [textDocument uri])

def workspaceSymbols (query : String) : Json :=
  .obj [("query", .str query)]

end LanguageClient.Params
