import LanguageClient.Completion.Item
import LanguageClient.Diagnostic.Basic
import LanguageClient.Message.Outgoing
import LanguageClient.Proofs.Json.Exact
import LanguageClient.Proofs.Json.Written
import LanguageClient.Proofs.Sync.Events

/-!
# The records of the wire

Positions, edits, diagnostics and completion items, each with three facts: the
names under which it is written, in order; that it is read again from there if
it was read at all (`lossless`); and that what is written has a text that is
read back exactly (`within`), with only so many levels.

A kind of a completion item that nobody knows keeps its code, and of the two
kinds of edits of an item neither is read as the other.
-/
namespace LanguageClient

open Fields (taken?_of_get?)
open Json (FitsInt Within get?_optional names_optional unless_eq_optional within_arr within_bool
  within_int within_obj within_str)
open Keyed (get?_append names_append_sublist)
open Lossless (exists_of_nullable taken?_list taken?_optional)

/-! ## Members -/

namespace Json

theorem namedBy_obj {members : List (String × Json)} {written : List String}
    (h : (Keyed.names members).Sublist written) : (obj members).NamedBy written :=
  ⟨members, rfl, h⟩

theorem NamedBy.within {members : List (String × Json)} {written : List String} {n : Nat}
    (h : (obj members).NamedBy written) (hwritten : written.Pairwise (· < ·))
    (hmembers : ∀ member ∈ members, member.2.Within n) : (obj members).Within (n + 1) := by
  obtain ⟨_, hobj, hsub⟩ := h
  cases hobj
  exact within_obj (List.Pairwise.sublist hsub hwritten) hmembers

/-- What a value that may be absent is written as. -/
theorem forall_mem_optional {α : Type} {name : String} {o : Option α} {write : α → Json}
    {P : String × Json → Prop} :
    (∀ member ∈ optional name (o.map write), P member) ↔ ∀ x ∈ o, P (name, write x) := by
  cases o <;> simp [optional]

theorem forall_mem_unless {c : Bool} {member : String × Json} {P : String × Json → Prop}
    (h : P member) : ∀ other ∈ (if c then [] else [member]), P other := by
  cases c <;> simp [h]

end Json

open Json (forall_mem_optional forall_mem_unless namedBy_obj)

theorem UInt32.within_toNat (n : Nat) (i : UInt32) : Within n (.int i.toNat) :=
  within_int (by have := i.toNat_lt; unfold FitsInt; omega)

/-- The items of a list were read one by one. -/
theorem Decoder.exists_of_list {α : Type} {read : Decoder α} {xs : List α}
    (h : (∃ v, Decoder.list read v = .ok xs) ∨ some [] = some xs) :
    ∀ x ∈ xs, ∃ v, read v = .ok x := by
  rcases h with ⟨v, hv⟩ | hxs
  · obtain ⟨items, -, hitems⟩ := list_forall₂ hv
    intro x hx
    obtain ⟨i, hi, rfl⟩ := List.getElem_of_mem hx
    exact ⟨_, hitems.get (by rwa [hitems.length_eq]) hi⟩
  · obtain rfl := Option.some.inj hxs
    simp

/-! ## Codes and ids -/

namespace Severity

theorem code_of_ofCode? {n : Nat} {s : Severity} (h : ofCode? n = some s) : s.code = n := by
  unfold ofCode? at h
  split at h <;> cases h <;> rfl

theorem exists_of_decode {v : Json} {s : Severity} (h : decode v = .ok s) :
    ∃ n, Decoder.nat64 v = .ok n ∧ ofCode? n = some s := by
  unfold decode at h
  cases hn : Decoder.nat64 v with
  | error e =>
    rw [hn] at h
    cases h
  | ok n =>
    rw [hn] at h
    simp only [bind, Except.bind] at h
    split at h
    · rename_i hcode
      cases h
      exact ⟨n, rfl, hcode⟩
    · cases h

theorem verbatim : Verbatim decode toJson where
  same v s h := by
    obtain ⟨n, hn, hcode⟩ := exists_of_decode h
    rw [toJson, code_of_ofCode? hcode]
    exact Verbatim.nat64.same v n hn
  scalar v s h := by
    obtain ⟨n, hn, -⟩ := exists_of_decode h
    exact Verbatim.nat64.scalar v n hn

end Severity

namespace InsertFormat

theorem decode_toJson (f : InsertFormat) : decode f.toJson = .ok f := by
  cases f <;> rfl

theorem lossless : Lossless decode toJson :=
  .of_all decode_toJson nofun

theorem within (f : InsertFormat) (n : Nat) : f.toJson.Within n := by
  cases f <;> exact within_int ⟨by decide, by decide⟩

end InsertFormat

namespace ItemKind

/-- No code is changed, known or not. -/
theorem code_ofCode (n : Nat) : (ofCode n).code = n := by
  unfold ofCode
  split <;> rfl

theorem verbatim : Verbatim decode toJson := by
  refine Verbatim.nat64.map fun _ n _ => ?_
  rw [toJson, code_ofCode]

end ItemKind

theorem RequestId.verbatim : Verbatim decode toJson :=
  .orElse "RequestId" (Verbatim.int64.map fun _ _ _ => rfl) (Verbatim.string.map fun _ _ _ => rfl)

theorem DiagnosticCode.verbatim : Verbatim decode toJson :=
  .orElse "DiagnosticCode" (Verbatim.int64.map fun _ _ _ => rfl)
    (Verbatim.string.map fun _ _ _ => rfl)

/-! ## Places and edits -/

namespace Position

theorem namedBy (p : Position) : p.toJson.NamedBy ["character", "line"] :=
  namedBy_obj (.refl _)

theorem lossless : Lossless decode toJson :=
  .of_all decode_toJson nofun

theorem within (p : Position) : p.toJson.Within 1 :=
  p.namedBy.within (by decide) (by simp [UInt32.within_toNat])

end Position

namespace Range

theorem namedBy (r : Range) : r.toJson.NamedBy ["end", "start"] :=
  namedBy_obj (.refl _)

theorem lossless : Lossless decode toJson :=
  .of_all decode_toJson nofun

theorem within (r : Range) : r.toJson.Within 2 :=
  r.namedBy.within (by decide) (by simp [Position.within])

end Range

namespace ChangeEvent

theorem namedBy (e : ChangeEvent) : e.toJson.NamedBy (["range"] ++ ["text"]) :=
  namedBy_obj (names_append_sublist (names_optional ..) (.refl _))

theorem lossless : Lossless decode toJson :=
  .of_all decode_toJson nofun

theorem within (e : ChangeEvent) : e.toJson.Within 3 := by
  refine e.namedBy.within (by decide) (List.forall_mem_append.2 ⟨forall_mem_optional.2 ?_, ?_⟩)
  · simp [Range.within]
  · simp [within_str]

end ChangeEvent

namespace TextEdit

theorem namedBy (e : TextEdit) : e.toJson.NamedBy ["newText", "range"] :=
  namedBy_obj (.refl _)

theorem lossless : Lossless decode toJson := by
  refine .record "TextEdit" ["range", "newText"] rfl (by decide) (by decide) namedBy ?_
  rintro ⟨range, newText, ⟨⟩⟩ -
  exact ⟨_, rfl, taken?_of_get? rfl range.decode_toJson, taken?_of_get? rfl rfl, trivial⟩

theorem within (e : TextEdit) : e.toJson.Within 3 :=
  e.namedBy.within (by decide) (by simp [within_str, Range.within])

end TextEdit

namespace Location

theorem namedBy (l : Location) : l.toJson.NamedBy ["range", "uri"] :=
  namedBy_obj (.refl _)

theorem lossless : Lossless decode toJson := by
  refine .record "Location" ["uri", "range"] rfl (by decide) (by decide) namedBy ?_
  rintro ⟨uri, range, ⟨⟩⟩ -
  exact ⟨_, rfl, taken?_of_get? rfl rfl, taken?_of_get? rfl range.decode_toJson, trivial⟩

theorem within (l : Location) : l.toJson.Within 3 :=
  l.namedBy.within (by decide) (by simp [within_str, Range.within])

end Location

namespace InsertReplaceEdit

theorem namedBy (e : InsertReplaceEdit) : e.toJson.NamedBy ["insert", "newText", "replace"] :=
  namedBy_obj (.refl _)

theorem lossless : Lossless decode toJson := by
  refine .record "InsertReplaceEdit" ["newText", "insert", "replace"] rfl (by decide) (by decide)
    namedBy ?_
  rintro ⟨newText, insert, replace, ⟨⟩⟩ -
  exact ⟨_, rfl, taken?_of_get? rfl rfl, taken?_of_get? rfl insert.decode_toJson,
    taken?_of_get? rfl replace.decode_toJson, trivial⟩

theorem within (e : InsertReplaceEdit) : e.toJson.Within 3 :=
  e.namedBy.within (by decide) (by simp [within_str, Range.within])

end InsertReplaceEdit

namespace FormattingOptions

theorem namedBy (o : FormattingOptions) :
    o.toJson.NamedBy (["insertSpaces", "tabSize"] ++ ["trimTrailingWhitespace"]) :=
  namedBy_obj (names_append_sublist (.refl _) (names_optional ..))

theorem lossless : Lossless decode toJson := by
  refine .record "FormattingOptions" ["tabSize", "insertSpaces", "trimTrailingWhitespace"] rfl
    (by decide) (by decide) namedBy ?_
  rintro ⟨tabSize, insertSpaces, trim, ⟨⟩⟩ ⟨-, -, htrim, -⟩
  refine ⟨_, rfl, taken?_of_get? rfl (Decoder.uint32_toNat tabSize), taken?_of_get? rfl rfl,
    taken?_optional .bool htrim ?_, trivial⟩
  simp [get?_optional]

theorem within (o : FormattingOptions) : o.toJson.Within 1 := by
  refine o.namedBy.within (by decide) (List.forall_mem_append.2 ⟨?_, forall_mem_optional.2 ?_⟩)
  · simp [UInt32.within_toNat, within_bool]
  · simp [within_bool]

end FormattingOptions

/-! ## Diagnostics and errors -/

namespace Diagnostic

theorem namedBy (d : Diagnostic) :
    d.toJson.NamedBy (["code"] ++ ["message", "range"] ++ ["severity"] ++ ["source"]) :=
  namedBy_obj (names_append_sublist (names_append_sublist (names_append_sublist
    (names_optional ..) (.refl _)) (names_optional ..)) (names_optional ..))

theorem lossless : Lossless decode toJson := by
  refine .record "Diagnostic" ["range", "severity", "code", "source", "message"] rfl (by decide)
    (by decide) namedBy ?_
  rintro ⟨range, severity, code, source, message, ⟨⟩⟩ ⟨-, hseverity, hcode, hsource, -⟩
  refine ⟨_, rfl, taken?_of_get? ?_ range.decode_toJson,
    taken?_optional Severity.verbatim.lossless hseverity ?_,
    taken?_optional DiagnosticCode.verbatim.lossless hcode ?_, taken?_optional .string hsource ?_,
    taken?_of_get? (j := .str message) ?_ rfl, trivial⟩
  all_goals simp [get?_append, get?_optional]

theorem within {v : Json} {d : Diagnostic} (h : decode v = .ok d) : d.toJson.Within 3 := by
  obtain ⟨⟨range, severity, code, source, message, ⟨⟩⟩, hread, rfl⟩ := map_eq_ok.1 h
  obtain ⟨-, hseverity, hcode, -, -⟩ := Fields.yields_of_read hread
  refine (namedBy _).within (by decide) ?_
  simp only [List.forall_mem_append, forall_mem_optional]
  refine ⟨⟨⟨?_, ?_⟩, ?_⟩, ?_⟩
  · rintro c rfl
    obtain ⟨w, -, hw⟩ := exists_of_nullable hcode
    exact DiagnosticCode.verbatim.within hw 2
  · simp [within_str, Range.within]
  · rintro s rfl
    obtain ⟨w, -, hw⟩ := exists_of_nullable hseverity
    exact Severity.verbatim.within hw 2
  · simp [within_str]

end Diagnostic

namespace ResponseError

theorem namedBy (e : ResponseError) : e.toJson.NamedBy (["code", "message"] ++ ["data"]) :=
  namedBy_obj (names_append_sublist (.refl _) (names_optional ..))

theorem lossless : Lossless decode toJson := by
  refine .record "ResponseError" ["code", "message", "data"] rfl (by decide) (by decide) namedBy ?_
  rintro ⟨code, message, data, ⟨⟩⟩ ⟨hcode, -, hdata, -⟩
  obtain ⟨v, hv⟩ := hcode.resolve_right nofun
  refine ⟨_, rfl, taken?_of_get? rfl (Verbatim.int64.lossless.again hv), taken?_of_get? rfl rfl,
    taken?_optional .any hdata ?_, trivial⟩
  simp [get?_optional]

end ResponseError

/-! ## Completion -/

/-- An edit with two ranges is no plain edit, which has a member of the name `range`. -/
theorem TextEdit.decode_insertReplace (e : InsertReplaceEdit) (x : TextEdit) :
    decode e.toJson ≠ .ok x := by
  intro h
  obtain ⟨⟨range, rest⟩, hread, -⟩ := map_eq_ok.1 h
  obtain ⟨value, hrange | ⟨items, hitems⟩, -⟩ := Fields.exists_of_read hread
  · cases hrange
  · cases hitems

namespace ItemEdit

theorem lossless : Lossless decode toJson where
  again {v x} h := by
    rcases Decoder.of_orElse h with hedit | hedit
    · obtain ⟨e, he, rfl⟩ := map_eq_ok.1 hedit
      simp only [decode, Decoder.orElse, toJson, TextEdit.lossless.again he]
      rfl
    · obtain ⟨e, he, rfl⟩ := map_eq_ok.1 hedit
      simp only [decode, Decoder.orElse, toJson, InsertReplaceEdit.lossless.again he]
      cases hplain : TextEdit.decode e.toJson with
      | ok plain => exact absurd hplain (TextEdit.decode_insertReplace e plain)
      | error m => rfl
  solid {v x} _ _ := by cases x <;> nofun

theorem within (e : ItemEdit) : e.toJson.Within 3 := by
  cases e with
  | edit e => exact e.within
  | insertReplace e => exact e.within

end ItemEdit

namespace CompletionItem

theorem namedBy (item : CompletionItem) : item.toJson.NamedBy
    (["additionalTextEdits"] ++ ["detail"] ++ ["filterText"] ++ ["insertText"] ++
      ["insertTextFormat"] ++ ["kind"] ++ ["label"] ++ ["preselect"] ++ ["sortText"] ++
      ["textEdit"]) := by
  rw [toJson, unless_eq_optional]
  refine namedBy_obj ?_
  repeat' first
    | exact names_optional ..
    | exact .refl _
    | refine names_append_sublist ?_ ?_

theorem lossless : Lossless decode toJson := by
  refine .record "CompletionItem" ["label", "kind", "detail", "sortText", "filterText",
    "insertText", "insertTextFormat", "textEdit", "additionalTextEdits", "preselect"] rfl
    (by decide) (by decide) namedBy ?_
  rintro ⟨label, kind, detail, sortText, filterText, insertText, format, edit, more, preselect, ⟨⟩⟩
    ⟨-, hkind, hdetail, hsortText, hfilterText, hinsertText, hformat, hedit, hmore, hpreselect, -⟩
  refine ⟨_, congrArg (fun first => Json.obj (first ++ _ ++ _ ++ _ ++ _ ++ _ ++ _ ++ _ ++ _ ++ _))
    (unless_eq_optional ..), taken?_of_get? (j := .str label) ?_ rfl,
    taken?_optional ItemKind.verbatim.lossless hkind ?_, taken?_optional .string hdetail ?_,
    taken?_optional .string hsortText ?_, taken?_optional .string hfilterText ?_,
    taken?_optional .string hinsertText ?_, taken?_optional InsertFormat.lossless hformat ?_,
    taken?_optional ItemEdit.lossless hedit ?_, taken?_list TextEdit.lossless hmore ?_,
    taken?_optional .bool hpreselect ?_, trivial⟩
  all_goals simp [get?_append, get?_optional]

theorem within {v : Json} {item : CompletionItem} (h : decode v = .ok item) :
    item.toJson.Within 5 := by
  obtain ⟨⟨label, kind, detail, sortText, filterText, insertText, format, edit, more, preselect,
    ⟨⟩⟩, hread, rfl⟩ := map_eq_ok.1 h
  obtain ⟨-, hkind, -⟩ := Fields.yields_of_read hread
  refine (namedBy _).within (by decide) ?_
  have hmore : Within 4 (.arr (more.map TextEdit.toJson)) :=
    within_arr (List.forall_mem_map.2 fun e _ => e.within)
  have hkind : ∀ k ∈ kind, Within 4 k.toJson := by
    rintro k rfl
    obtain ⟨w, -, hw⟩ := exists_of_nullable hkind
    exact ItemKind.verbatim.within hw 4
  simp only [List.forall_mem_append, forall_mem_optional]
  refine ⟨⟨⟨⟨⟨⟨⟨⟨⟨forall_mem_unless hmore, ?_⟩, ?_⟩, ?_⟩, ?_⟩, hkind⟩, ?_⟩, ?_⟩, ?_⟩, ?_⟩
  case refine_8 => exact fun e _ => e.within.mono (Nat.le_succ 3)
  all_goals simp [within_str, within_bool, InsertFormat.within]

end CompletionItem

namespace CompletionList

theorem namedBy (l : CompletionList) : l.toJson.NamedBy ["isIncomplete", "items"] :=
  namedBy_obj (.refl _)

theorem lossless : Lossless decode toJson := by
  refine .record "CompletionList" ["isIncomplete", "items"] rfl (by decide) (by decide) namedBy ?_
  rintro ⟨isIncomplete, items, ⟨⟩⟩ ⟨-, hitems, -⟩
  exact ⟨_, rfl, taken?_of_get? rfl rfl,
    taken?_of_get? rfl (CompletionItem.lossless.list_again hitems), trivial⟩

theorem within {v : Json} {l : CompletionList} (h : decode v = .ok l) : l.toJson.Within 7 := by
  obtain ⟨⟨isIncomplete, items, ⟨⟩⟩, hread, rfl⟩ := map_eq_ok.1 h
  obtain ⟨-, hitems, -⟩ := Fields.yields_of_read hread
  have hitems : Within 6 (.arr (items.map CompletionItem.toJson)) := by
    refine within_arr (List.forall_mem_map.2 fun item hitem => ?_)
    obtain ⟨w, hw⟩ := Decoder.exists_of_list hitems item hitem
    exact CompletionItem.within hw
  exact (namedBy _).within (by decide) (by simp [within_bool, hitems])

end CompletionList

end LanguageClient
