import LanguageClient.Proofs.Client.Replies
import LanguageClient.Proofs.Json.Exact

/-!
# What is sent is understood as it was meant

The two ends of a connection read messages in the same way. What a reader of
incoming bodies makes of the bytes of a request, a notification or a reply is
what these say (`Outgoing.meaning`): its kind is told by which of an id, a
method, a result and an error are there, so a result that is `null` must be
written, and parameters that are `null` are as good as none.

* `decode_body_eq_meaning`: this holds of every message that can be sent.
-/
namespace LanguageClient

open Json (Source)

/-! ## Values within a message -/

/-- An integer of 64 bits, with a sign. -/
def IsInt64 (n : Int) : Prop :=
  -0x8000000000000000 ≤ n ∧ n ≤ 0x7FFFFFFFFFFFFFFF

instance (n : Int) : Decidable (IsInt64 n) :=
  inferInstanceAs (Decidable (_ ∧ _))

theorem IsInt64.fits {n : Int} (h : IsInt64 n) : Json.FitsInt n :=
  ⟨h.1, Int.le_trans h.2 (by decide)⟩

theorem IsInt64.decode {n : Int} (h : IsInt64 n) : Decoder.int64 (.int n) = .ok n :=
  if_pos h

namespace RequestId

/-- An id that a client or a server can give. -/
def IsValid : RequestId → Prop
  | number n => IsInt64 n
  | text _ => True

theorem IsValid.fits {id : RequestId} (h : id.IsValid) : id.Fits := by
  cases id with
  | number n => exact IsInt64.fits h
  | text s => trivial

theorem IsValid.decode {id : RequestId} (h : id.IsValid) : RequestId.decode id.toJson = .ok id := by
  cases id with
  | number n =>
    simp [RequestId.decode, toJson, Decoder.orElse, IsInt64.decode h, Functor.map, Except.map]
  | text s => rfl

end RequestId

/-- A value that can be a part of a message: its text is read back exactly, also two levels down,
where the data of an error are. -/
def Json.IsPart (j : Json) : Prop :=
  j.Within (maxDepth - 2)

theorem Json.IsPart.toJson?_source {j : Json} (h : j.IsPart) {depth : Nat}
    (hdepth : maxDepth - 2 ≤ depth) : j.source.toJson? depth = some j :=
  Json.toJson?_source j h.exact (Nat.le_trans h.levels hdepth)

theorem Json.isPart_null : Json.IsPart .null :=
  ⟨trivial, Nat.zero_le _⟩

theorem Json.source_ne_null {j : Json} (h : j ≠ .null) : j.source ≠ .null := by
  cases j with
  | null => exact absurd rfl h
  | _ => simp [source, numberSource]

/-! ## Messages -/

/-- The four kinds of messages. -/
inductive MessageForm where
  | request
  | notification
  | result
  | error
  deriving DecidableEq, Repr

namespace Incoming

def form : Incoming → MessageForm
  | response _ (.ok _) => .result
  | response _ (.error _) => .error
  | request _ _ => .request
  | notification _ => .notification

end Incoming

namespace Outgoing

def form : Outgoing → MessageForm
  | request _ _ _ => .request
  | notification _ _ => .notification
  | reply _ (.ok _) => .result
  | reply _ (.error _) => .error

/-- Ids and codes are integers of 64 bits, and all values can be parts of a message. -/
def Sendable : Outgoing → Prop
  | request id _ params => IsInt64 id ∧ ∀ j ∈ params, j.IsPart
  | notification _ params => ∀ j ∈ params, j.IsPart
  | reply id (.ok result) => id.IsValid ∧ result.IsPart
  | reply id (.error e) => id.IsValid ∧ IsInt64 e.code ∧ ∀ j ∈ e.data, j.IsPart

/-- What a message says to a reader of messages. A method has the parameters `null` if it has none,
and data that are `null` are none. -/
def meaning : Outgoing → Except IncomingError Incoming
  | request id method params =>
    .ok (.request (.number id) (ServerRequest.decode method (params.getD .null)))
  | notification method params =>
    match ServerNotification.decode method (params.getD .null) with
    | .ok note => .ok (.notification note)
    | .error _ => .error .notReadable
  | reply id (.ok result) => .ok (.response id (.ok result))
  | reply id (.error e) => .ok (.response id (.error { e with data := e.data.filter (· ≠ .null) }))

end Outgoing

namespace Incoming

/-! ## Fields -/

theorem nullable?_of_ne {α : Type} {read : Source → Option α} {s : Source} (h : s ≠ .null) :
    nullable? read (some s) = some <$> read s := by
  cases s with
  | null => exact absurd rfl h
  | _ => rfl

/-- A field of any value, with none for `null`. -/
theorem nullable?_any {value : Option Json} (h : ∀ j ∈ value, j.IsPart) {depth : Nat}
    (hdepth : Json.maxDepth - 2 ≤ depth) :
    nullable? (decodeSource? depth Decoder.any) (value.map Json.source) =
      some (value.filter (· ≠ .null)) := by
  cases value with
  | none => rfl
  | some j =>
    by_cases hj : j = .null
    · subst hj
      rfl
    · rw [Option.map_some, nullable?_of_ne (Json.source_ne_null hj), decodeSource?,
        (h j rfl).toJson?_source hdepth, Option.filter_some_pos (by simpa using hj)]
      rfl

theorem nullable?_id {id : RequestId} (h : id.IsValid) (depth : Nat) :
    nullable? (decodeSource? depth RequestId.decode) (some id.toJson.source) = some (some id) := by
  have hid : id.toJson ≠ .null := by cases id <;> simp [RequestId.toJson]
  rw [nullable?_of_ne (Json.source_ne_null hid), decodeSource?, RequestId.toJson?_source h.fits]
  simp [h.decode, Except.toOption]

theorem nullable?_string (s : String) (depth : Nat) :
    nullable? (decodeSource? depth Decoder.string) (some (.text (some s))) = some (some s) := rfl

/-- The error of a response. -/
theorem readError?_source {e : ResponseError} (hcode : IsInt64 e.code)
    (hdata : ∀ j ∈ e.data, j.IsPart) :
    readError? (Json.maxDepth - 1) e.toJson.source =
      some { e with data := e.data.filter (· ≠ .null) } := by
  have hfields : fieldSources? ["code", "message", "data"] e.toJson.source =
      some [some (Json.int e.code).source, some (.text (some e.message)),
        e.data.map Json.source] := by
    cases hd : e.data <;>
      simp [ResponseError.toJson, Json.optional, Json.source, Json.sourceMembers, fieldSources?, hd]
  have hcode' : decodeSource? (Json.maxDepth - 1 - 1) Decoder.int64 (Json.int e.code).source =
      some e.code := by
    rw [decodeSource?, Json.source_int hcode.fits, Source.toJson?]
    simp [hcode.decode, Except.toOption]
  have hdata' : nullable? (decodeSource? (Json.maxDepth - 1 - 1) Decoder.any)
      (e.data.map Json.source) = some (e.data.filter (· ≠ .null)) :=
    nullable?_any hdata (by decide)
  rw [readError?, hfields]
  simp only [Option.bind_eq_bind, Option.bind_some, hcode', hdata']
  rfl

/-- An envelope is read field by field. -/
theorem readEnvelope?_eq {s : Source} {id method params result error : Option Source}
    {id' : Option RequestId} {method' : Option String} {params' result' : Option Json}
    {error' : Option ResponseError}
    (hs : fieldSources? ["id", "method", "params", "result", "error"] s =
      some [id, method, params, result, error])
    (hid : nullable? (decodeSource? (Json.maxDepth - 1) RequestId.decode) id = some id')
    (hmethod : nullable? (decodeSource? (Json.maxDepth - 1) Decoder.string) method = some method')
    (hparams : nullable? (decodeSource? (Json.maxDepth - 1) Decoder.any) params = some params')
    (hresult : result.elim (some none) (fun s => some <$> s.toJson? (Json.maxDepth - 1)) =
      some result')
    (herror : nullable? (readError? (Json.maxDepth - 1)) error = some error') :
    readEnvelope? s = some ⟨id', method', params'.getD .null, result', error'⟩ := by
  simp only [readEnvelope?, hs, hid, hmethod, hparams, herror, Option.bind_eq_bind,
    Option.bind_some]
  cases result with
  | none =>
    cases hresult
    rfl
  | some source =>
    rw [Option.elim_some] at hresult
    simp only [hresult, Option.bind_some]

end Incoming

/-! ## Bodies -/

namespace Outgoing

/-- Which of the five fields of an envelope a message has. -/
theorem fieldSources?_toJson (m : Outgoing) :
    Incoming.fieldSources? ["id", "method", "params", "result", "error"] m.toJson.source =
      some (match m with
        | request id method params =>
          [some (Json.int id).source, some (.text (some method)), params.map Json.source, none,
            none]
        | notification method params =>
          [none, some (.text (some method)), params.map Json.source, none, none]
        | reply id (.ok result) => [some id.toJson.source, none, none, some result.source, none]
        | reply id (.error e) =>
          [some id.toJson.source, none, none, none, some e.toJson.source]) := by
  cases m with
  | request id method params =>
    cases params <;>
      simp [toJson, Json.optional, Json.source, Json.sourceMembers, Incoming.fieldSources?]
  | notification method params =>
    cases params <;>
      simp [toJson, Json.optional, Json.source, Json.sourceMembers, Incoming.fieldSources?]
  | reply id outcome =>
    cases outcome <;>
      simp [toJson, outcomeMember, Json.source, Json.sourceMembers, Incoming.fieldSources?]

theorem decode_body_of_envelope {m : Outgoing} {e : Incoming.Envelope}
    (h : Incoming.readEnvelope? m.toJson.source = some e) :
    Incoming.decode m.body = Incoming.ofEnvelope e := by
  rw [Incoming.decode, body, Json.read?_toBytes, Option.bind_some, h]

theorem getD_filter_null (params : Option Json) :
    (params.filter (· ≠ .null)).getD .null = params.getD .null := by
  cases params with
  | none => rfl
  | some j =>
    by_cases hj : j = .null
    · subst hj
      rfl
    · rw [Option.filter_some_pos (by simpa using hj)]

theorem decode_request {id : Int} {method : String} {params : Option Json} (hid : IsInt64 id)
    (hparams : ∀ j ∈ params, j.IsPart) :
    Incoming.decode (request id method params).body = (request id method params).meaning := by
  have hnumber : RequestId.IsValid (.number id) := hid
  rw [decode_body_of_envelope (Incoming.readEnvelope?_eq (fieldSources?_toJson _)
    (Incoming.nullable?_id hnumber _) (Incoming.nullable?_string method _)
    (Incoming.nullable?_any hparams (by decide)) rfl rfl), getD_filter_null]
  rfl

theorem decode_notification {method : String} {params : Option Json}
    (hparams : ∀ j ∈ params, j.IsPart) :
    Incoming.decode (notification method params).body = (notification method params).meaning := by
  rw [decode_body_of_envelope (Incoming.readEnvelope?_eq (fieldSources?_toJson _) rfl
    (Incoming.nullable?_string method _) (Incoming.nullable?_any hparams (by decide)) rfl rfl),
    getD_filter_null]
  rfl

theorem decode_result {id : RequestId} {result : Json} (hid : id.IsValid)
    (hresult : result.IsPart) :
    Incoming.decode (reply id (.ok result)).body = (reply id (.ok result)).meaning := by
  have hread : (some result.source).elim (some none)
      (fun s => some <$> s.toJson? (Json.maxDepth - 1)) = some (some result) := by
    rw [Option.elim_some, hresult.toJson?_source (by decide)]
    rfl
  rw [decode_body_of_envelope (Incoming.readEnvelope?_eq (fieldSources?_toJson _)
    (Incoming.nullable?_id hid _) rfl rfl hread rfl)]
  rfl

theorem decode_error {id : RequestId} {e : ResponseError} (hid : id.IsValid)
    (hcode : IsInt64 e.code) (hdata : ∀ j ∈ e.data, j.IsPart) :
    Incoming.decode (reply id (.error e)).body = (reply id (.error e)).meaning := by
  have hread := Incoming.readError?_source hcode hdata
  have hne : e.toJson.source ≠ .null := Json.source_ne_null (by simp [ResponseError.toJson])
  have herror : Incoming.nullable? (Incoming.readError? (Json.maxDepth - 1))
      (some e.toJson.source) = some (some { e with data := e.data.filter (· ≠ .null) }) := by
    rw [Incoming.nullable?_of_ne hne, hread]
    rfl
  rw [decode_body_of_envelope (Incoming.readEnvelope?_eq (fieldSources?_toJson _)
    (Incoming.nullable?_id hid _) rfl rfl rfl herror)]
  rfl

theorem form_of_meaning {m : Outgoing} {i : Incoming} (h : m.meaning = .ok i) :
    i.form = m.form := by
  cases m with
  | request id method params =>
    cases h
    rfl
  | notification method params =>
    rw [meaning] at h
    split at h
    · cases h
      rfl
    · cases h
  | reply id outcome =>
    cases outcome <;>
    · cases h
      rfl

/-- The message with parameters that are `null` where it has none. -/
def withNull : Outgoing → Outgoing
  | request id method params => request id method (some (params.getD .null))
  | notification method params => notification method (some (params.getD .null))
  | reply id outcome => reply id outcome

theorem Sendable.withNull {m : Outgoing} (h : m.Sendable) : m.withNull.Sendable := by
  have hpart : ∀ {params : Option Json}, (∀ j ∈ params, j.IsPart) →
      ∀ j ∈ some (params.getD .null), j.IsPart := by
    rintro params hparams _ ⟨⟩
    cases params with
    | none => exact Json.isPart_null
    | some j => exact hparams j rfl
  cases m with
  | request id method params => exact ⟨h.1, hpart h.2⟩
  | notification method params => exact hpart h
  | reply id outcome => exact h

theorem decode_body_eq_meaning {m : Outgoing} (h : m.Sendable) :
    Incoming.decode m.body = m.meaning := by
  cases m with
  | request id method params => exact decode_request h.1 h.2
  | notification method params => exact decode_notification h
  | reply id outcome =>
    cases outcome with
    | ok result => exact decode_result h.1 h.2
    | error e => exact decode_error h.1 h.2.1 h.2.2

/-- **What is sent is understood.** Every message that can be sent is read as what it says: in its
own kind, under its own id, and the same whether parameters are `null` or left out. -/
theorem understood {m : Outgoing} (h : m.Sendable) :
    Incoming.decode m.body = m.meaning ∧
      (∀ i, Incoming.decode m.body = .ok i → i.form = m.form) ∧
      Incoming.decode m.withNull.body = Incoming.decode m.body := by
  refine ⟨decode_body_eq_meaning h, fun i hi => ?_, ?_⟩
  · rw [decode_body_eq_meaning h] at hi
    exact form_of_meaning hi
  · rw [decode_body_eq_meaning h, decode_body_eq_meaning h.withNull]
    cases m <;> rfl

/-- A result that is `null`, under an id that needs escapes, and settings that are asked for. -/
theorem understood_null_and_items :
    Incoming.decode (reply (.text "\"\\\n") (.ok .null)).body =
        .ok (.response (.text "\"\\\n") (.ok .null)) ∧
      Incoming.decode (request (-1) "workspace/configuration"
          (some (.obj [("items", .arr [.obj [("section", .str "a.b")]])]))).body =
        .ok (.request (.number (-1)) (.configuration [⟨none, some "a.b"⟩])) := by
  have hnull : (reply (.text "\"\\\n") (.ok .null)).Sendable := ⟨trivial, Json.isPart_null⟩
  have hitems : (request (-1) "workspace/configuration"
      (some (.obj [("items", .arr [.obj [("section", .str "a.b")]])]))).Sendable := by
    refine ⟨by decide, ?_⟩
    rintro _ ⟨⟩
    refine ⟨?_, by decide⟩
    simp [Json.Exact, Json.ExactItems, Json.ExactMembers, Keyed.Sorted, Keyed.names]
  exact ⟨(understood hnull).1, (understood hitems).1.trans (by rfl)⟩

end Outgoing

end LanguageClient
