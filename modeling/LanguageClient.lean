import LanguageClient.Client
import LanguageClient.CommandLine.Caret
import LanguageClient.CommandLine.Language
import LanguageClient.CommandLine.Options
import LanguageClient.CommandLine.Start
import LanguageClient.Completion.Cache
import LanguageClient.Completion.Filter
import LanguageClient.Completion.Insertion
import LanguageClient.Completion.Item
import LanguageClient.Completion.Settings
import LanguageClient.Completion.Words
import LanguageClient.Configuration.Basic
import LanguageClient.Configuration.File
import LanguageClient.Configuration.Launch
import LanguageClient.Connection
import LanguageClient.Diagnostic.Basic
import LanguageClient.Diagnostic.Store
import LanguageClient.Diff.Block
import LanguageClient.Diff.Compact
import LanguageClient.Diff.Merge
import LanguageClient.Diff.Script
import LanguageClient.Diff.Snake
import LanguageClient.Document
import LanguageClient.Edit
import LanguageClient.Frame.Basic
import LanguageClient.Frame.Reader
import LanguageClient.Frame.Stream
import LanguageClient.Glob.Basic
import LanguageClient.Glob.Parser
import LanguageClient.Host
import LanguageClient.Json.Basic
import LanguageClient.Json.Decode
import LanguageClient.Json.Number
import LanguageClient.Json.Printer
import LanguageClient.Json.Source
import LanguageClient.Json.Text
import LanguageClient.Keyed
import LanguageClient.Main
import LanguageClient.Message.Answers
import LanguageClient.Message.Incoming
import LanguageClient.Message.Kind
import LanguageClient.Message.Outgoing
import LanguageClient.Message.Params
import LanguageClient.Method
import LanguageClient.Number.Binary64
import LanguageClient.Number.Numeral
import LanguageClient.Number.Shortest
import LanguageClient.Poll
import LanguageClient.Position
import LanguageClient.Query
import LanguageClient.Registry.Basic
import LanguageClient.Registry.Handshake
import LanguageClient.RequestId
import LanguageClient.Session.Basic
import LanguageClient.Session.Documents
import LanguageClient.Session.Pump
import LanguageClient.Sync
import LanguageClient.Text.Blank
import LanguageClient.Text.CaseTable
import LanguageClient.Text.Line
import LanguageClient.Text.Lowercase
import LanguageClient.Text.OsString
import LanguageClient.Text.Quoted
import LanguageClient.Text.Ranges
import LanguageClient.Text.Unprintable
import LanguageClient.Text.Utf16
import LanguageClient.Text.Utf8
import LanguageClient.Toml.Document
import LanguageClient.Toml.Scalar
import LanguageClient.Toml.Table
import LanguageClient.Toml.Text
import LanguageClient.Uri.Basic
import LanguageClient.Uri.Host
import LanguageClient.Uri.Path
import LanguageClient.Workspace.Basic
import LanguageClient.Workspace.Documents
import LanguageClient.Workspace.Pump
import LanguageClient.Workspace.Shutdown
import LanguageClient.Proofs.Client.Lifecycle
import LanguageClient.Proofs.Client.Correlation
import LanguageClient.Proofs.Session.Mirror
import LanguageClient.Proofs.Session.Log
import LanguageClient.Proofs.Session.Agreement
import LanguageClient.Proofs.Diff.Distance
import LanguageClient.Proofs.Diff.Front
import LanguageClient.Proofs.Diff.Middle
import LanguageClient.Proofs.Diff.Tiling
import LanguageClient.Proofs.Diff.Script
import LanguageClient.Proofs.Diff.Moves
import LanguageClient.Proofs.Diff.Compact
import LanguageClient.Proofs.Diff.Merge
import LanguageClient.Proofs.Text.Lines
import LanguageClient.Proofs.Text.Splice
import LanguageClient.Proofs.Sync.Blocks
import LanguageClient.Proofs.Sync.Incremental
import LanguageClient.Proofs.Client.Registrations
import LanguageClient.Proofs.Registry.History
import LanguageClient.Proofs.Frame.Block
import LanguageClient.Proofs.Frame.Successive
import LanguageClient.Proofs.Number.Numeral
import LanguageClient.Proofs.Text.Utf8
import LanguageClient.Proofs.Frame.RoundTrip
import LanguageClient.Proofs.Frame.Grammar
import LanguageClient.Proofs.Frame.Resume
import LanguageClient.Proofs.Json.Text
import LanguageClient.Proofs.Json.Number
import LanguageClient.Proofs.Json.Reading
import LanguageClient.Proofs.Json.Record
import LanguageClient.Proofs.Json.Members
import LanguageClient.Proofs.Client.Replies
import LanguageClient.Proofs.Keyed
import LanguageClient.Proofs.Session.Refusal
import LanguageClient.Proofs.Session.Service
import LanguageClient.Proofs.Session.Pump
import LanguageClient.Proofs.Session.Sound
import LanguageClient.Proofs.Session.Opened
import LanguageClient.Proofs.Workspace.Run
import LanguageClient.Proofs.Workspace.Attachment
import LanguageClient.Proofs.Workspace.Offers
import LanguageClient.Proofs.Workspace.Opening
import LanguageClient.Proofs.Diagnostic.Screen
import LanguageClient.Proofs.Diagnostic.Servers
import LanguageClient.Proofs.Session.Unheard
import LanguageClient.Proofs.Session.Handover
import LanguageClient.Proofs.Session.Arrivals
import LanguageClient.Proofs.Session.Screen
import LanguageClient.Proofs.Session.Cache
import LanguageClient.Proofs.Session.Calls
import LanguageClient.Proofs.Session.Gate
import LanguageClient.Proofs.Session.Incomplete
import LanguageClient.Proofs.Session.Ending
import LanguageClient.Proofs.Frame.Consumption
import LanguageClient.Proofs.Frame.Arrival
import LanguageClient.Proofs.Connection.Exchange
import LanguageClient.Proofs.Workspace.Screen
import LanguageClient.Proofs.Diff.Arrays
import LanguageClient.Proofs.Diff.Checked
import LanguageClient.Proofs.Sync.Bounds
import LanguageClient.Proofs.Sync.Replay
import LanguageClient.Proofs.Json.Exact
import LanguageClient.Proofs.Json.Written
import LanguageClient.Proofs.Wire.Records
import LanguageClient.Proofs.Wire.RoundTrip
import LanguageClient.Proofs.Message.Meaning
import LanguageClient.Proofs.Text.Boundary
import LanguageClient.Proofs.Text.Terminators
import LanguageClient.Proofs.Text.Positions
import LanguageClient.Proofs.Text.Offsets
import LanguageClient.Proofs.Text.Pieces
import LanguageClient.Proofs.Text.Advance
import LanguageClient.Proofs.Completion.Words
import LanguageClient.Proofs.Completion.Reuse
import LanguageClient.Proofs.Completion.Landing
import LanguageClient.Proofs.Completion.Filter
import LanguageClient.Proofs.Frame.Acceptance
import LanguageClient.Proofs.Connection.Reading
import LanguageClient.Proofs.Sorting
import LanguageClient.Proofs.Diagnostic.Summary
import LanguageClient.Proofs.Registry.Providers
import LanguageClient.Proofs.Session.Saving
import LanguageClient.Proofs.Text.OsString
import LanguageClient.Proofs.Configuration.Launch
