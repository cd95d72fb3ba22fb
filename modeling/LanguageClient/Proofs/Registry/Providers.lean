import LanguageClient.Proofs.Client.Registrations
import LanguageClient.Proofs.Json.Members

/-!
# What the handshake offers

A provider of the handshake becomes a registration for the languages that the
client is set up for, unless it is absent, `false` or `null`. Its members are
merged over the options of the client, a `documentSelector` among them. So a
list of filters takes the place of the client's languages, and so does a
selector that is no list, `null` among them, which covers no document at all.

* `get?_merge`: what merged options hold under a name.
* `supports_provider_iff`: the documents that a provider is there for.
* `handshake_supports`: exactly which providers cover the client's languages.
-/
namespace LanguageClient

/-- The members of a value have each name once, as all have that are read from a text. -/
def Json.NamesOnce (j : Json) : Prop :=
  ∀ members, j = .obj members → (Keyed.names members).Nodup

namespace Registry

variable {capabilities value : Json} {languageIds : List String} {method flag languageId : String}
  {path : Option String}

/-! ## Merged options -/

theorem get?_foldl_set {members : List (String × Json)} (hn : (Keyed.names members).Nodup)
    (base : List (String × Json)) (name : String) :
    (members.foldl (fun options (k, v) => options.set k v) (Json.obj base)).get? name =
      ((Json.obj members).get? name <|> (Json.obj base).get? name) := by
  induction members generalizing base with
  | nil => rfl
  | cons member members ih =>
    obtain ⟨k, v⟩ := member
    rw [Keyed.names_cons, List.nodup_cons] at hn
    rw [List.foldl_cons]
    show (members.foldl _ (Json.obj (Json.insertMember k v base))).get? name = _
    rw [ih hn.2, Json.insertMember_eq]
    show (Keyed.get? name members <|> Keyed.get? name (Keyed.insert k v base)) =
      (Keyed.get? name ((k, v) :: members) <|> Keyed.get? name base)
    rw [Keyed.get?_insert, Keyed.get?_cons]
    by_cases hk : k = name
    · subst hk
      simp [Keyed.get?_eq_none_iff.2 hn.1]
    · simp [hk, Ne.symm hk]

/-- Merged options hold the members of the value, and of the others those that it does not have. -/
theorem get?_merge (hvalue : value.NamesOnce) (base : List (String × Json)) (name : String) :
    (merge (.obj base) value).get? name = (value.get? name <|> (Json.obj base).get? name) := by
  cases value with
  | obj members => exact get?_foldl_set (hvalue members rfl) base name
  | _ => rfl

/-! ## The registration of a provider -/

/-- Whether the selector of a provider covers a document. Without one it covers the languages of
the client, or all of them if it is about the workspace. -/
def Selects (languageIds : List String) (method languageId : String) (path : Option String) :
    Option Json → Prop
  | none => languageId ∈ languageIds ∨ method.startsWith "workspace/" = true
  | some (.arr filters) =>
    (∃ f ∈ filters, (DocumentFilter.ofJson f).covers languageId path = true) ∨
      filters = [] ∧ method.startsWith "workspace/" = true
  | some _ => method.startsWith "workspace/" = true

/-- A selector that is no list covers documents only in the place of none, or for the workspace. -/
theorem selects_iff_of_no_list {selector : Option Json}
    (h : ∀ filters, selector ≠ some (.arr filters)) :
    Selects languageIds method languageId path selector ↔
      selector = none ∧ languageId ∈ languageIds ∨ method.startsWith "workspace/" = true := by
  cases selector with
  | none => simp [Selects]
  | some selector =>
    cases selector with
    | arr filters => exact absurd rfl (h filters)
    | _ => simp [Selects]

/-- The options of the client that those of a provider are merged into. -/
def providerBase (method : String) (languageIds : List String) : List (String × Json) :=
  if method.startsWith "workspace/" then []
  else [("documentSelector", .arr (languageIds.map fun id => .obj [("language", .str id)]))]

theorem providerRegistration?_eq (capabilities : Json) (languageIds : List String)
    (method flag : String) :
    providerRegistration? capabilities languageIds (method, flag) =
      (enabled? flag capabilities).map fun value =>
        offered method (merge (.obj (providerBase method languageIds)) value) := by
  by_cases hw : method.startsWith "workspace/" = true <;>
    cases he : enabled? flag capabilities <;>
    simp [providerRegistration?, providerBase, baseOptions, hw, he]

theorem covers_language (id languageId : String) (path : Option String) :
    (DocumentFilter.ofJson (.obj [("language", .str id)])).covers languageId path = true ↔
      id = languageId := by
  simp [DocumentFilter.ofJson, DocumentFilter.covers, Json.get?, Json.str?, List.lookup_cons]

theorem covers_ofOptions (id method : String) (options : Json) (source : RegistrationSource)
    (languageId : String) (path : Option String) :
    (Registration.ofOptions id method options source).covers languageId path = true ↔
      (∃ f ∈ Registration.selectorOf options, f.covers languageId path = true) ∨
        Registration.selectorOf options = [] ∧ method.startsWith "workspace/" = true := by
  unfold Registration.covers Registration.ofOptions
  cases h : Registration.selectorOf options with
  | nil => simp
  | cons f rest => simp

/-- What the registration of a provider covers. -/
theorem covers_offered (hvalue : value.NamesOnce) :
    (offered method (merge (.obj (providerBase method languageIds)) value)).covers
        languageId path = true ↔
      Selects languageIds method languageId path (value.get? "documentSelector") := by
  rw [offered, covers_ofOptions, Registration.selectorOf, get?_merge hvalue]
  cases hs : value.get? "documentSelector" with
  | none =>
    by_cases hw : method.startsWith "workspace/" = true
    · simp [providerBase, hw, Json.get?, Selects]
    · simp [providerBase, hw, Json.get?, Json.arr?, Selects, covers_language]
  | some selector =>
    cases selector with
    | arr filters => simp [Json.arr?, Selects]
    | _ => simp [Json.arr?, Selects]

/-! ## The registrations of the handshake -/

/-- What keeps documents in step is registered for no provider's method. -/
theorem method_of_mem_syncRegistrations {r : Registration}
    (hr : r ∈ syncRegistrations capabilities languageIds) :
    r.method ∈ [Method.didOpen, Method.didClose, Method.didSave, Method.didChange] := by
  have hoffered : ∀ method options, (offered method options).method = method := fun _ _ => rfl
  simp only [syncRegistrations, List.mem_append] at hr
  rcases hr with (hr | hr) | hr <;> split at hr <;>
    simp only [List.mem_cons, List.not_mem_nil, or_false] at hr
  · rcases hr with rfl | rfl <;> simp [hoffered]
  · simp [hr, hoffered]
  · simp [hr, hoffered]

theorem supports_iff {reg : Registry} :
    reg.supports method languageId path = true ↔
      ∃ r ∈ reg.registrations, r.method = method ∧ r.covers languageId path = true := by
  simp [supports, options?, List.find?_isSome]

theorem enabled?_eq_some : enabled? flag capabilities = some value ↔
    capabilities.get? flag = some value ∧ value ≠ .bool false ∧ value ≠ .null := by
  rw [enabled?, Option.filter_eq_some_iff]
  refine and_congr_right fun _ => ?_
  cases value with
  | bool b => cases b <;> simp [isEnabled]
  | _ => simp [isEnabled]

/-- A provider's method is there for a document exactly if the flag is set and its selector covers
the document. -/
theorem supports_provider_iff (hprovider : (method, flag) ∈ providers)
    (hnames : ∀ value, capabilities.get? flag = some value → value.NamesOnce) :
    (ofHandshake capabilities languageIds).supports method languageId path = true ↔
      ∃ value, enabled? flag capabilities = some value ∧
        Selects languageIds method languageId path (value.get? "documentSelector") := by
  have hsync : ∀ p ∈ providers,
      p.1 ∉ [Method.didOpen, Method.didClose, Method.didSave, Method.didChange] := by decide
  have hflag : ∀ p ∈ providers, ∀ q ∈ providers, p.1 = q.1 → p = q := by decide
  have hcovers : ∀ value, enabled? flag capabilities = some value →
      ((offered method (merge (.obj (providerBase method languageIds)) value)).covers
          languageId path = true ↔
        Selects languageIds method languageId path (value.get? "documentSelector")) :=
    fun value he => covers_offered (hnames value (enabled?_eq_some.1 he).1)
  rw [supports_iff]
  constructor
  · rintro ⟨r, hr, hm, hc⟩
    rcases List.mem_append.1 hr with hr | hr
    · exact absurd (hm ▸ method_of_mem_syncRegistrations hr) (hsync _ hprovider)
    · obtain ⟨⟨method', flag'⟩, hother, hr⟩ := List.mem_filterMap.1 hr
      rw [providerRegistration?_eq] at hr
      obtain ⟨value, he, rfl⟩ := Option.map_eq_some_iff.1 hr
      cases hflag _ hother _ hprovider hm
      exact ⟨value, he, (hcovers value he).1 hc⟩
  · rintro ⟨value, he, hs⟩
    refine ⟨_, List.mem_append_right _ (List.mem_filterMap.2 ⟨_, hprovider, ?_⟩), rfl,
      (hcovers value he).2 hs⟩
    rw [providerRegistration?_eq, he, Option.map_some]

/-- **What the handshake offers.** A provider that is absent, `false` or `null` is there for no
document. Any other one without a list of filters is there for all documents if it is about the
workspace. If it is about documents, it is there for those in the languages of the client exactly
if it has no selector at all. -/
theorem handshake_supports (hprovider : (method, flag) ∈ providers)
    (hnames : ∀ value, capabilities.get? flag = some value → value.NamesOnce) :
    ((∀ value, capabilities.get? flag = some value → value = .bool false ∨ value = .null) →
      ∀ languageId path,
        (ofHandshake capabilities languageIds).supports method languageId path = false) ∧
    ∀ value, capabilities.get? flag = some value → value ≠ .bool false → value ≠ .null →
      (∀ filters, value.get? "documentSelector" ≠ some (.arr filters)) →
      (method = Method.workspaceSymbol → ∀ languageId path,
        (ofHandshake capabilities languageIds).supports method languageId path = true) ∧
      (method ≠ Method.workspaceSymbol → ∀ languageId ∈ languageIds, ∀ path,
        ((ofHandshake capabilities languageIds).supports method languageId path = true ↔
          value.get? "documentSelector" = none)) := by
  have hworkspace : ∀ p ∈ providers,
      (p.1.startsWith "workspace/" = true ↔ p.1 = Method.workspaceSymbol) := by decide +kernel
  have hscope := hworkspace _ hprovider
  refine ⟨fun hoff languageId path => ?_, fun value hget hfalse hnull hlist => ?_⟩
  · rw [Bool.eq_false_iff, ne_eq, supports_provider_iff hprovider hnames]
    rintro ⟨value, he, -⟩
    obtain ⟨hget, hfalse, hnull⟩ := enabled?_eq_some.1 he
    exact (hoff value hget).elim hfalse hnull
  have henabled := enabled?_eq_some.2 ⟨hget, hfalse, hnull⟩
  have hsupports : ∀ languageId path,
      (ofHandshake capabilities languageIds).supports method languageId path = true ↔
        value.get? "documentSelector" = none ∧ languageId ∈ languageIds ∨
          method = Method.workspaceSymbol := fun languageId path => by
    rw [supports_provider_iff hprovider hnames, henabled, ← hscope]
    simp only [Option.some.injEq, exists_eq_left', selects_iff_of_no_list hlist]
  exact ⟨fun hm languageId path => (hsupports languageId path).2 (.inr hm),
    fun hm languageId hl path => by simp [hsupports, hm, hl]⟩

/-! ## Two handshakes -/

/-- The capabilities of a server whose flag for hovering is a value. -/
def hovering (value : Json) : Json :=
  .obj [("hoverProvider", value), ("textDocumentSync", .int 1)]

theorem handshake_supports_progress :
    (Method.hover, "hoverProvider") ∈ providers ∧
      (ofHandshake (hovering (.obj [("workDoneProgress", .bool true)])) ["python", "rust"]).supports
        Method.hover "rust" (some "/main.rs") = true := by
  have hprovider : (Method.hover, "hoverProvider") ∈ providers := by decide
  have hnames : ∀ value,
      (hovering (.obj [("workDoneProgress", .bool true)])).get? "hoverProvider" = some value →
        value.NamesOnce := by
    rintro value ⟨⟩ members ⟨⟩
    decide
  have h := (@handshake_supports _ ["python", "rust"] _ _ hprovider hnames).2 _ rfl
    (by decide) (by decide) (by rintro filters ⟨⟩)
  exact ⟨hprovider, (h.2 (by decide) "rust" (by decide) (some "/main.rs")).2 rfl⟩

/-- A selector that is `null` hides a provider that is there from all languages of the client. -/
theorem null_selector :
    (hovering (.obj [("documentSelector", .null)])).get? "hoverProvider" =
        some (.obj [("documentSelector", .null)]) ∧
      (ofHandshake (hovering (.obj [("documentSelector", .null)])) ["python"]).supports
        Method.hover "python" none = false := by
  decide +kernel

end Registry

end LanguageClient
