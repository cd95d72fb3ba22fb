import LanguageClient.Proofs.Json.Exact
import LanguageClient.Proofs.Json.Record

/-!
# Records written and read again

What was read, from an object or from an array, is written as an object. It is
read again from there if each field finds its value under its name, or finds
nothing where it holds what it takes when it is not written (`Fields.Takes`).
Only values that were read once need to be read again: each comes from the
decoder of its field, or is the default (`Fields.Yields`).

* `Fields.yields_of_read`: where the fields of a record come from.
* `Fields.read_of_takes`: a record is read from the members that hold it.
-/
namespace LanguageClient

/-- A writer keeps what a decoder has read: it is read again, and written as `null` only if it was
read from it. -/
structure Lossless {α : Type} (read : Decoder α) (write : α → Json) : Prop where
  again : ∀ {v x}, read v = .ok x → read (write x) = .ok x
  solid : ∀ {v x}, read v = .ok x → v ≠ .null → write x ≠ .null

namespace Fields

/-! ## What is read -/

/-- Every field comes from its decoder, or is what it is when it is not written. -/
def Yields : {τ : Type} → Fields τ → τ → Prop
  | _, done, _ => True
  | _, field _ read absent rest, (x, xs) =>
    ((∃ v, read v = .ok x) ∨ absent = some x) ∧ rest.Yields xs

/-- Every slot that is filled was filled by its decoder. -/
def Drawn : {τ : Type} → (fields : Fields τ) → Slots fields → Prop
  | _, done, _ => True
  | _, field _ read _ rest, slots =>
    (∀ x, slots.1 = some x → ∃ v, read v = .ok x) ∧ rest.Drawn slots.2

theorem drawn_empty : {τ : Type} → (fields : Fields τ) → fields.Drawn fields.empty
  | _, done => trivial
  | _, field _ _ _ rest => ⟨nofun, drawn_empty rest⟩

theorem drawn_put {τ : Type} {fields : Fields τ} {name : String} {value : Json}
    {slots slots' : Slots fields} (h : fields.Drawn slots)
    (hput : fields.put name value slots = .ok slots') : fields.Drawn slots' := by
  induction fields with
  | done => trivial
  | field names read absent rest ih =>
    obtain ⟨slot, others⟩ := slots
    simp only [put] at hput
    split at hput
    · split at hput
      · cases hput
      · split at hput
        · rename_i x hread
          cases hput
          exact ⟨fun y hy => ⟨value, by rw [hread, Option.some.inj hy]⟩, h.2⟩
        · cases hput
    · split at hput
      · rename_i others' hothers
        cases hput
        exact ⟨h.1, ih h.2 hothers⟩
      · cases hput

theorem drawn_putAll {τ : Type} {fields : Fields τ} {members : List (String × Json)} :
    ∀ {slots slots' : Slots fields}, fields.Drawn slots →
      fields.putAll members slots = .ok slots' → fields.Drawn slots' := by
  induction members with
  | nil =>
    intro slots slots' h hall
    cases hall
    exact h
  | cons member members ih =>
    intro slots slots' h hall
    rw [putAll] at hall
    split at hall
    · rename_i hput
      exact ih (drawn_put h hput) hall
    · cases hall

theorem yields_finish {τ : Type} {fields : Fields τ} {slots : Slots fields} {y : τ}
    (h : fields.Drawn slots) (hfinish : fields.finish slots = .ok y) : fields.Yields y := by
  induction fields with
  | done => trivial
  | field names read absent rest ih =>
    obtain ⟨slot, others⟩ := slots
    simp only [finish] at hfinish
    split at hfinish
    · cases hfinish
    · rename_i x hx
      split at hfinish
      · rename_i xs hxs
        cases hfinish
        refine ⟨?_, ih h.2 hxs⟩
        cases slot with
        | none => exact .inr hx
        | some z => exact .inl (h.1 x hx)
      · cases hfinish

theorem yields_readItems {total : Nat} {wanted : String} {τ : Type} {fields : Fields τ} :
    ∀ {index : Nat} {items : List Json} {y : τ},
      fields.readItems total wanted index items = .ok y → fields.Yields y := by
  induction fields with
  | done => exact fun _ => trivial
  | field names read absent rest ih =>
    intro index items y h
    cases items with
    | nil =>
      simp only [readItems] at h
      split at h
      · cases h
      · split at h
        · rename_i hrest
          cases h
          exact ⟨.inr rfl, ih hrest⟩
        · cases h
    | cons item items =>
      simp only [readItems] at h
      split at h
      · cases h
      · rename_i x hread
        split at h
        · rename_i hrest
          cases h
          exact ⟨.inl ⟨item, hread⟩, ih hrest⟩
        · cases h

/-- The fields of a record that was read, from an object or an array. -/
theorem yields_of_read {τ : Type} {fields : Fields τ} {record : String} {j : Json} {y : τ}
    (h : fields.read record j = .ok y) : fields.Yields y := by
  cases j with
  | obj members =>
    obtain ⟨slots, hall, hfinish⟩ := read_obj_iff.1 h
    exact yields_finish (drawn_putAll (drawn_empty fields) hall) hfinish
  | arr items => exact yields_readItems h
  | _ => cases h

/-! ## What is written -/

def names : {τ : Type} → Fields τ → List (List String)
  | _, done => []
  | _, field names _ _ rest => names :: rest.names

/-- Every field takes its value from some members. -/
def Takes (members : List (String × Json)) : {τ : Type} → Fields τ → τ → Prop
  | _, done, _ => True
  | _, field names read absent rest, (x, xs) =>
    taken? (names.headD "") read absent members = some x ∧ Takes members rest xs

theorem takes_erase {members : List (String × Json)} {name : String} {τ : Type}
    {fields : Fields τ} {y : τ} {own : List String} (hown : fields.names = own.map fun n => [n])
    (hname : name ∉ own) (h : Takes members fields y) :
    Takes (Keyed.erase name members) fields y := by
  induction fields generalizing own with
  | done => trivial
  | field names read absent rest ih =>
    obtain ⟨x, xs⟩ := y
    cases own with
    | nil => cases hown
    | cons first own =>
      obtain ⟨rfl, hrest⟩ := List.cons.inj hown
      rw [List.mem_cons, not_or] at hname
      refine ⟨?_, ih hrest hname.2 h.2⟩
      have htaken := h.1
      rw [List.headD_cons] at htaken ⊢
      rwa [taken?, Keyed.get?_erase_of_ne members (Ne.symm hname.1)]

/-- A record is read from the members its fields take their values from. -/
theorem read_of_takes {record : String} {τ : Type} {fields : Fields τ}
    {members : List (String × Json)} {y : τ} (own : List String)
    (hown : fields.names = own.map fun n => [n]) (hdistinct : own.Nodup)
    (hn : (Keyed.names members).Nodup) (h : Takes members fields y) :
    fields.read record (.obj members) = .ok y := by
  induction fields generalizing own members with
  | done => exact read_done record members
  | field names read absent rest ih =>
    obtain ⟨x, xs⟩ := y
    cases own with
    | nil => cases hown
    | cons first own =>
      obtain ⟨rfl, hrest⟩ := List.cons.inj hown
      rw [List.nodup_cons] at hdistinct
      exact (read_field_iff hn).2 ⟨h.1, ih own hrest hdistinct.2 (nodup_erase hn first)
        (takes_erase hrest hdistinct.1 h.2)⟩

end Fields

/-! ## Members -/

namespace Keyed

variable {α : Type}

theorem get?_append (name : String) (xs ys : Keyed α) :
    get? name (xs ++ ys) = (get? name xs).or (get? name ys) :=
  List.lookup_append

theorem names_append_sublist {xs ys : Keyed α} {u v : List String} (hx : xs.names.Sublist u)
    (hy : ys.names.Sublist v) : (names (xs ++ ys)).Sublist (u ++ v) := by
  rw [names, List.map_append]
  exact hx.append hy

end Keyed

namespace Json

theorem get?_optional (key name : String) (o : Option Json) :
    Keyed.get? key (optional name o) = if name = key then o else none := by
  cases o <;> simp [optional]

theorem names_optional (name : String) (o : Option Json) :
    (Keyed.names (optional name o)).Sublist [name] := by
  cases o with
  | none => exact List.nil_sublist _
  | some j => exact List.Sublist.refl _

/-- An object with names from a list, in its order. -/
def NamedBy (written : List String) (j : Json) : Prop :=
  ∃ members, j = obj members ∧ (Keyed.names members).Sublist written

/-- A member that is left out under a condition. -/
theorem unless_eq_optional (c : Bool) (name : String) (j : Json) :
    (if c then [] else [(name, j)]) = optional name (if c then none else some j) := by
  cases c <;> rfl

end Json

/-! ## How a field takes its value -/

namespace Fields

variable {α : Type} {name : String} {read : Decoder α} {absent : Option α}
  {members : List (String × Json)}

theorem taken?_of_get? {j : Json} {x : α} (hget : Keyed.get? name members = some j)
    (hread : read j = .ok x) : taken? name read absent members = some x := by
  rw [taken?, hget]
  simp [hread, Except.toOption]

theorem taken?_of_none (hget : Keyed.get? name members = none) :
    taken? name read absent members = absent := by
  rw [taken?, hget]

end Fields

/-! ## Writers that copy -/

theorem map_eq_ok {α β : Type} {f : α → β} {result : Except Mismatch α} {y : β} :
    f <$> result = .ok y ↔ ∃ x, result = .ok x ∧ f x = y := by
  cases result <;> simp [Functor.map, Except.map]

theorem Decoder.int_eq_ok {low high n : Int} {wanted : String} {v : Json} :
    int low high wanted v = .ok n ↔ v = .int n ∧ low ≤ n ∧ n ≤ high := by
  cases v with
  | int m =>
    rw [int]
    split
    · rename_i hm
      simp only [Except.ok.injEq, Json.int.injEq]
      exact ⟨fun h => ⟨h, h ▸ hm⟩, fun h => h.1⟩
    · rename_i hm
      simp only [reduceCtorEq, Json.int.injEq, false_iff]
      rintro ⟨rfl, hn⟩
      exact hm hn
  | _ => simp [int]

theorem Decoder.of_orElse {α : Type} {union : String} {first second : Decoder α} {v : Json} {x : α}
    (h : orElse union first second v = .ok x) : first v = .ok x ∨ second v = .ok x := by
  unfold orElse at h
  split at h
  · rename_i hfirst
    exact .inl (hfirst.trans h)
  · split at h
    · rename_i hsecond
      exact .inr (hsecond.trans h)
    · cases h

/-- A writer gives the number or the text that was read, known or not. -/
structure Verbatim {α : Type} (read : Decoder α) (write : α → Json) : Prop where
  same : ∀ v x, read v = .ok x → write x = v
  scalar : ∀ v x, read v = .ok x → v.Within 0

namespace Verbatim

variable {α β : Type} {read : Decoder α} {write : α → Json}

theorem lossless (h : Verbatim read write) : Lossless read write where
  again hread := by rwa [h.same _ _ hread]
  solid hread hv := by rwa [h.same _ _ hread]

theorem within (h : Verbatim read write) {v : Json} {x : α} (hread : read v = .ok x) (n : Nat) :
    (write x).Within n := by
  rw [h.same v x hread]
  exact (h.scalar v x hread).mono (Nat.zero_le n)

theorem map {f : α → β} {write' : β → Json} (h : Verbatim read write)
    (hf : ∀ v x, read v = .ok x → write' (f x) = write x) :
    Verbatim (fun v => f <$> read v) write' where
  same v y hread := by
    obtain ⟨x, hx, rfl⟩ := map_eq_ok.1 hread
    exact (hf v x hx).trans (h.same v x hx)
  scalar v y hread := by
    obtain ⟨x, hx, -⟩ := map_eq_ok.1 hread
    exact h.scalar v x hx

theorem orElse {read' : Decoder α} (union : String) (h : Verbatim read write)
    (h' : Verbatim read' write) : Verbatim (Decoder.orElse union read read') write where
  same v x hread := (Decoder.of_orElse hread).elim (h.same v x) (h'.same v x)
  scalar v x hread := (Decoder.of_orElse hread).elim (h.scalar v x) (h'.scalar v x)

theorem int {low high : Int} (hlow : -0x8000000000000000 ≤ low) (hhigh : high ≤ 0xFFFFFFFFFFFFFFFF)
    (wanted : String) : Verbatim (Decoder.int low high wanted) .int where
  same _ _ hread := (Decoder.int_eq_ok.1 hread).1.symm
  scalar _ _ hread := by
    obtain ⟨rfl, hl, hh⟩ := Decoder.int_eq_ok.1 hread
    exact Json.within_int ⟨hlow.trans hl, hh.trans hhigh⟩

theorem int64 : Verbatim Decoder.int64 .int :=
  int (Int.le_refl _) (by decide) "i64"

theorem nat64 : Verbatim Decoder.nat64 fun n => .int n := by
  refine (int (by decide) (Int.le_refl _) "u64").map fun v n hread => ?_
  rw [Int.toNat_of_nonneg (Decoder.int_eq_ok.1 hread).2.1]

theorem string : Verbatim Decoder.string .str := by
  have hcases : ∀ v s, Decoder.string v = .ok s → v = .str s := by
    rintro (_ | _) s ⟨⟩
    rfl
  exact ⟨fun v s h => (hcases v s h).symm, fun v s h => hcases v s h ▸ Json.within_str 0 s⟩

end Verbatim

/-! ## Writers -/

namespace Lossless

variable {α β : Type} {read : Decoder α} {write : α → Json}

/-- A decoder that reads everything its writer writes. -/
theorem of_all (hread : ∀ x, read (write x) = .ok x) (hsolid : ∀ x, write x ≠ .null) :
    Lossless read write where
  again _ := hread _
  solid _ _ := hsolid _

theorem any : Lossless Decoder.any id where
  again _ := rfl
  solid hread hv := by rwa [← Except.ok.inj hread]

theorem string : Lossless Decoder.string .str :=
  Verbatim.string.lossless

theorem bool : Lossless Decoder.bool .bool :=
  of_all (fun _ => rfl) nofun

theorem list (h : Lossless read write) :
    Lossless (Decoder.list read) fun xs => .arr (xs.map write) where
  again {v xs} hread := by
    obtain ⟨items, rfl, hitems⟩ := Decoder.list_forall₂ hread
    clear hread
    rw [Decoder.list]
    induction hitems with
    | nil => rfl
    | cons hitem _ ih =>
      rw [List.map_cons, List.mapM_cons, h.again hitem, ih]
      rfl
  solid _ _ := nofun

/-- What may be `null` or left out and is neither was read by the decoder. -/
theorem exists_of_nullable {x : α}
    (hx : (∃ v, Decoder.nullable read v = .ok (some x)) ∨ some none = some (some x)) :
    ∃ v, v ≠ .null ∧ read v = .ok x := by
  obtain ⟨v, hv⟩ := hx.resolve_right nofun
  unfold Decoder.nullable at hv
  split at hv
  · cases hv
  · rename_i hnull
    obtain ⟨y, hy, hsome⟩ := map_eq_ok.1 hv
    exact ⟨v, hnull, Option.some.inj hsome ▸ hy⟩

/-- What may be `null` or left out is left out if it is nothing. -/
theorem taken?_optional (h : Lossless read write) {name : String} {x : Option α}
    {members : List (String × Json)}
    (hx : (∃ v, Decoder.nullable read v = .ok x) ∨ some none = some x)
    (hget : Keyed.get? name members = x.map write) :
    Fields.taken? name (Decoder.nullable read) (some none) members = some x := by
  cases x with
  | none => exact Fields.taken?_of_none hget
  | some x =>
    obtain ⟨v, hnull, hread⟩ := exists_of_nullable hx
    refine Fields.taken?_of_get? hget ?_
    have hsolid := h.solid hread hnull
    have hagain := h.again hread
    generalize write x = j at hsolid hagain ⊢
    unfold Decoder.nullable
    split
    · exact absurd rfl hsolid
    · rw [hagain]
      rfl

/-- A list is read again, also one that nothing was written for. -/
theorem list_again (h : Lossless read write) {xs : List α}
    (hxs : (∃ v, Decoder.list read v = .ok xs) ∨ some [] = some xs) :
    Decoder.list read (.arr (xs.map write)) = .ok xs := by
  rcases hxs with ⟨v, hv⟩ | hxs
  · exact h.list.again hv
  · rw [← Option.some.inj hxs]
    rfl

/-- An empty list is left out. -/
theorem taken?_list (h : Lossless read write) {name : String} {xs : List α}
    {members : List (String × Json)}
    (hxs : (∃ v, Decoder.list read v = .ok xs) ∨ some [] = some xs)
    (hget : Keyed.get? name members =
      if xs.isEmpty = true then none else some (.arr (xs.map write))) :
    Fields.taken? name (Decoder.list read) (some []) members = some xs := by
  cases xs with
  | nil => exact Fields.taken?_of_none hget
  | cons x xs => exact Fields.taken?_of_get? hget (h.list_again hxs)

/-- A record of fields with one name each is kept if its writer gives every field what it takes,
under names in order. -/
theorem record {τ : Type} {fields : Fields τ} {f : τ → β} {write : β → Json} (record : String)
    (own : List String) (hown : fields.names = own.map fun n => [n]) (hdistinct : own.Nodup)
    {written : List String} (hwritten : written.Nodup) (hnamed : ∀ x, (write x).NamedBy written)
    (h : ∀ y, fields.Yields y → ∃ members, write (f y) = .obj members ∧ fields.Takes members y) :
    Lossless (fun j => f <$> fields.read record j) write where
  again {v x} hread := by
    obtain ⟨y, hy, rfl⟩ := map_eq_ok.1 hread
    obtain ⟨members, hwrite, htakes⟩ := h y (Fields.yields_of_read hy)
    obtain ⟨_, hobj, hsub⟩ := hnamed (f y)
    obtain rfl := Json.obj.inj (hwrite.symm.trans hobj)
    rw [hwrite, Fields.read_of_takes own hown hdistinct (hsub.nodup hwritten) htakes]
    rfl
  solid {v x} _ _ := by
    obtain ⟨members, hobj, -⟩ := hnamed x
    rw [hobj]
    nofun

end Lossless

end LanguageClient
