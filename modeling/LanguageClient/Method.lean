/-!
# Method names

The methods of the protocol that the client sends or answers.
-/
namespace LanguageClient.Method

/-! ## Lifecycle -/

def start : String := "initialize"
def started : String := "initialized"
def shutdown : String := "shutdown"
def exit : String := "exit"

/-! ## Documents -/

def didOpen : String := "textDocument/didOpen"
def didChange : String := "textDocument/didChange"
def didSave : String := "textDocument/didSave"
def didClose : String := "textDocument/didClose"

/-! ## Requests about a document -/

def completion : String := "textDocument/completion"
def hover : String := "textDocument/hover"
def signatureHelp : String := "textDocument/signatureHelp"
def definition : String := "textDocument/definition"
def references : String := "textDocument/references"
def implementation : String := "textDocument/implementation"
def declaration : String := "textDocument/declaration"
def typeDefinition : String := "textDocument/typeDefinition"
def documentSymbol : String := "textDocument/documentSymbol"
def formatting : String := "textDocument/formatting"
def rangeFormatting : String := "textDocument/rangeFormatting"

/-! ## Requests about the workspace -/

def workspaceSymbol : String := "workspace/symbol"

/-! ## Requests of a server -/

def registerCapability : String := "client/registerCapability"
def unregisterCapability : String := "client/unregisterCapability"
def configuration : String := "workspace/configuration"
def workspaceFolders : String := "workspace/workspaceFolders"
def workDoneProgressCreate : String := "window/workDoneProgress/create"

/-! ## Notifications of a server -/

def publishDiagnostics : String := "textDocument/publishDiagnostics"
def logMessage : String := "window/logMessage"
def showMessage : String := "window/showMessage"
def progress : String := "$/progress"

end LanguageClient.Method
