import LanguageClient.Proofs.Wire.Records

/-!
# Every value of the wire survives

What is decoded, written and decoded again is the same value, whatever form it
came in: an object with members nobody knows, with `null` or nothing in the
place of an option, or an array of the fields. The same is told of all kinds
of values at once, by their decoders and writers (`WireKind`).

* `roundTrip`: the way there and back, as a value and as a text.
-/
namespace LanguageClient

/-- The kinds of values with a form on the wire. -/
inductive WireKind where
  | position
  | range
  | changeEvent
  | textEdit
  | location
  | formattingOptions
  | severity
  | diagnosticCode
  | diagnostic
  | requestId
  | responseError
  | itemKind
  | insertFormat
  | insertReplaceEdit
  | itemEdit
  | completionItem
  | completionList
  deriving DecidableEq, Repr

namespace WireKind

/-- The values of a kind. -/
def Value : WireKind → Type
  | position => Position
  | range => Range
  | changeEvent => ChangeEvent
  | textEdit => TextEdit
  | location => Location
  | formattingOptions => FormattingOptions
  | severity => Severity
  | diagnosticCode => DiagnosticCode
  | diagnostic => Diagnostic
  | requestId => RequestId
  | responseError => ResponseError
  | itemKind => ItemKind
  | insertFormat => InsertFormat
  | insertReplaceEdit => InsertReplaceEdit
  | itemEdit => ItemEdit
  | completionItem => CompletionItem
  | completionList => CompletionList

def decode : (kind : WireKind) → Decoder kind.Value
  | position => Position.decode
  | range => Range.decode
  | changeEvent => ChangeEvent.decode
  | textEdit => TextEdit.decode
  | location => Location.decode
  | formattingOptions => FormattingOptions.decode
  | severity => Severity.decode
  | diagnosticCode => DiagnosticCode.decode
  | diagnostic => Diagnostic.decode
  | requestId => RequestId.decode
  | responseError => ResponseError.decode
  | itemKind => ItemKind.decode
  | insertFormat => InsertFormat.decode
  | insertReplaceEdit => InsertReplaceEdit.decode
  | itemEdit => ItemEdit.decode
  | completionItem => CompletionItem.decode
  | completionList => CompletionList.decode

def toJson : (kind : WireKind) → kind.Value → Json
  | position => Position.toJson
  | range => Range.toJson
  | changeEvent => ChangeEvent.toJson
  | textEdit => TextEdit.toJson
  | location => Location.toJson
  | formattingOptions => FormattingOptions.toJson
  | severity => Severity.toJson
  | diagnosticCode => DiagnosticCode.toJson
  | diagnostic => Diagnostic.toJson
  | requestId => RequestId.toJson
  | responseError => ResponseError.toJson
  | itemKind => ItemKind.toJson
  | insertFormat => InsertFormat.toJson
  | insertReplaceEdit => InsertReplaceEdit.toJson
  | itemEdit => ItemEdit.toJson
  | completionItem => CompletionItem.toJson
  | completionList => CompletionList.toJson

/-- The kinds whose values are nothing but a code or an id. -/
def isCode : WireKind → Bool
  | severity => true
  | diagnosticCode => true
  | requestId => true
  | itemKind => true
  | _ => false

variable {kind : WireKind} {v : Json} {x : kind.Value}

theorem lossless (kind : WireKind) : Lossless kind.decode kind.toJson := by
  cases kind with
  | position => exact Position.lossless
  | range => exact Range.lossless
  | changeEvent => exact ChangeEvent.lossless
  | textEdit => exact TextEdit.lossless
  | location => exact Location.lossless
  | formattingOptions => exact FormattingOptions.lossless
  | severity => exact Severity.verbatim.lossless
  | diagnosticCode => exact DiagnosticCode.verbatim.lossless
  | diagnostic => exact Diagnostic.lossless
  | requestId => exact RequestId.verbatim.lossless
  | responseError => exact ResponseError.lossless
  | itemKind => exact ItemKind.verbatim.lossless
  | insertFormat => exact InsertFormat.lossless
  | insertReplaceEdit => exact InsertReplaceEdit.lossless
  | itemEdit => exact ItemEdit.lossless
  | completionItem => exact CompletionItem.lossless
  | completionList => exact CompletionList.lossless

/-- The text of a value is read back exactly, except that the data of an error may hold numbers of
which this is not known. -/
theorem within (h : kind.decode v = .ok x) (hkind : kind ≠ .responseError) :
    (kind.toJson x).Within 7 := by
  cases kind with
  | position => exact (Position.within x).mono (by decide)
  | range => exact (Range.within x).mono (by decide)
  | changeEvent => exact (ChangeEvent.within x).mono (by decide)
  | textEdit => exact (TextEdit.within x).mono (by decide)
  | location => exact (Location.within x).mono (by decide)
  | formattingOptions => exact (FormattingOptions.within x).mono (by decide)
  | severity => exact Severity.verbatim.within h 7
  | diagnosticCode => exact DiagnosticCode.verbatim.within h 7
  | diagnostic => exact (Diagnostic.within h).mono (by decide)
  | requestId => exact RequestId.verbatim.within h 7
  | responseError => exact absurd rfl hkind
  | itemKind => exact ItemKind.verbatim.within h 7
  | insertFormat => exact InsertFormat.within x 7
  | insertReplaceEdit => exact (InsertReplaceEdit.within x).mono (by decide)
  | itemEdit => exact (ItemEdit.within x).mono (by decide)
  | completionItem => exact (CompletionItem.within h).mono (by decide)
  | completionList => exact CompletionList.within h

/-- A code or an id is written as the value it was read from, known or not. -/
theorem toJson_of_isCode (h : kind.decode v = .ok x) (hkind : kind.isCode = true) :
    kind.toJson x = v := by
  cases kind with
  | severity => exact Severity.verbatim.same v x h
  | diagnosticCode => exact DiagnosticCode.verbatim.same v x h
  | requestId => exact RequestId.verbatim.same v x h
  | itemKind => exact ItemKind.verbatim.same v x h
  | _ => cases hkind

/-- **Nothing is lost.** A value of any kind that was decoded, in whatever form it came, is decoded
from what it is written as, and written as the same again; two values that are written alike are
the same. A code or an id is written as it came. The text is read back as what was written. -/
theorem roundTrip (kind : WireKind) {v : Json} {x : kind.Value} (h : kind.decode v = .ok x) :
    kind.decode (kind.toJson x) = .ok x ∧
      (∀ y, kind.decode (kind.toJson x) = .ok y → kind.toJson y = kind.toJson x) ∧
      (∀ w y, kind.decode w = .ok y → kind.toJson y = kind.toJson x → y = x) ∧
      (kind.isCode = true → kind.toJson x = v) ∧
      (kind ≠ .responseError → Json.parse? (kind.toJson x).toBytes = some (kind.toJson x)) := by
  have hagain := kind.lossless.again h
  refine ⟨hagain, fun y hy => ?_, fun w y hy hsame => ?_, toJson_of_isCode h, fun hkind => ?_⟩
  · rw [hagain] at hy
    rw [Except.ok.inj hy]
  · have hy := kind.lossless.again hy
    rw [hsame, hagain] at hy
    exact (Except.ok.inj hy).symm
  · exact Json.parse?_toBytes ((within h hkind).mono (by decide))

/-- An item of a kind that nobody knows, with an edit in the form of an array. -/
theorem roundTrip_unknown_kind :
    let v := Json.obj [("items", .arr [.obj [("label", .str "f"), ("kind", .int 99),
      ("detail", .null), ("later", .bool true), ("textEdit", .arr [.str "f()",
        .arr [.arr [.int 0, .int 1], .arr [.int 0, .int 2]],
        .arr [.arr [.int 0, .int 1], .arr [.int 0, .int 3]]])]])]
    let x : CompletionList := ⟨false, [⟨"f", some (.other 99), none, none, none, none, none,
      some (.insertReplace ⟨"f()", ⟨⟨0, 1⟩, ⟨0, 2⟩⟩, ⟨⟨0, 1⟩, ⟨0, 3⟩⟩⟩), [], none⟩]⟩
    CompletionList.decode v = .ok x ∧ CompletionList.decode x.toJson = .ok x := by
  intro v x
  have h : CompletionList.decode v = .ok x := by rfl
  exact ⟨h, (roundTrip .completionList h).1⟩

end WireKind

end LanguageClient
