import LanguageClient.Message.Incoming
import LanguageClient.Proofs.Keyed

/-!
# The members of an object

An object that is read from a text has each name once: of repeated names the
last is kept (`nodup_of_decode`). A record is then read from it field by
field, each by the member of its name or by the default, and the order of the
members does not matter (`Fields.read_field_iff`).
-/
namespace LanguageClient

namespace Json

/-! ## Names that come once -/

/-- Members are kept in order as the entries of a `Keyed` value are. -/
theorem insertMember_eq (name : String) (value : Json) (members : List (String × Json)) :
    insertMember name value members = Keyed.insert name value members := by
  induction members with
  | nil => rfl
  | cons member members ih => rw [insertMember, Keyed.insert, ih]

theorem sorted_object (members : List (String × Json)) :
    ∃ all, object members = obj all ∧ Keyed.Sorted all := by
  suffices h : ∀ all : List (String × Json), Keyed.Sorted all →
      Keyed.Sorted (members.foldl (fun all member => insertMember member.1 member.2 all) all) from
    ⟨_, rfl, h [] List.Pairwise.nil⟩
  induction members with
  | nil => exact fun _ hall => hall
  | cons member members ih =>
    intro all hall
    refine ih _ ?_
    simp only [insertMember_eq]
    exact hall.insert member.1 member.2

namespace Source

/-- A tree whose number, if it is one, is no object. All trees that are read are so. -/
def IsPlain (s : Source) : Prop :=
  ∀ members, s ≠ .number (some (.obj members))

theorem sorted_of_toJson? {s : Source} (hs : s.IsPlain) {depth : Nat}
    {members : List (String × Json)} (h : s.toJson? depth = some (.obj members)) :
    Keyed.Sorted members := by
  cases s with
  | number value =>
    rw [toJson?] at h
    exact absurd (by rw [h]) (hs members)
  | object all =>
    cases depth with
    | zero => cases h
    | succ depth =>
      rw [toJson?] at h
      obtain ⟨read, -, h⟩ := Option.map_eq_some_iff.1 h
      obtain ⟨all, ho, hall⟩ := sorted_object read
      rw [ho] at h
      cases h
      exact hall
  | array items =>
    cases depth with
    | zero => cases h
    | succ depth =>
      rw [toJson?] at h
      obtain ⟨read, -, h⟩ := Option.map_eq_some_iff.1 h
      cases h
  | text value =>
    rw [toJson?] at h
    obtain ⟨text, -, h⟩ := Option.map_eq_some_iff.1 h
    cases h
  | _ => cases h

theorem value?_ne_obj (p : NumberParts) (members : List (String × Json)) :
    p.value? ≠ some (.obj members) := by
  unfold NumberParts.value?
  simp only
  split
  · simp
  split
  · simp
  · cases p.toDouble? <;> simp

/-- What a value is read as, with what is read below it. -/
theorem readValue?_cases {fuel : Nat} {text rest : List UInt8} {s : Source}
    (h : readValue? fuel text = some (s, rest)) :
    s = .null ∨ (∃ b, s = .bool b) ∨ (∃ value, s = .text value) ∨
      (∃ parts : NumberParts, s = .number parts.value?) ∨
      (∃ items, s = .array items ∧
        (items = [] ∨ ∃ fuel text rest, readItems? fuel text = some (items, rest))) ∨
      ∃ members, s = .object members ∧
        (members = [] ∨ ∃ fuel text rest, readMembers? fuel text = some (members, rest)) := by
  cases fuel with
  | zero => cases h
  | succ fuel =>
    rw [readValue?] at h
    repeat' split at h
    all_goals
      try simp only [Option.bind_eq_bind, Option.bind_eq_some_iff, Option.some.injEq,
        Prod.mk.injEq, Prod.exists] at h
    · cases h
    · obtain ⟨_, -, rfl, -⟩ := h
      exact .inl rfl
    · obtain ⟨_, -, rfl, -⟩ := h
      exact .inr (.inl ⟨_, rfl⟩)
    · obtain ⟨_, -, rfl, -⟩ := h
      exact .inr (.inl ⟨_, rfl⟩)
    · obtain ⟨value, _, -, rfl, -⟩ := h
      exact .inr (.inr (.inl ⟨value, rfl⟩))
    · exact .inr (.inr (.inr (.inr (.inl ⟨[], h.1.symm, .inl rfl⟩))))
    · obtain ⟨items, _, hitems, rfl, -⟩ := h
      exact .inr (.inr (.inr (.inr (.inl ⟨items, rfl, .inr ⟨_, _, _, hitems⟩⟩))))
    · exact .inr (.inr (.inr (.inr (.inr ⟨[], h.1.symm, .inl rfl⟩))))
    · obtain ⟨members, _, hmembers, rfl, -⟩ := h
      exact .inr (.inr (.inr (.inr (.inr ⟨members, rfl, .inr ⟨_, _, _, hmembers⟩⟩))))
    · obtain ⟨parts, _, -, rfl, -⟩ := h
      exact .inr (.inr (.inr (.inl ⟨parts, rfl⟩)))

theorem isPlain_of_readValue? {fuel : Nat} {text rest : List UInt8} {s : Source}
    (h : readValue? fuel text = some (s, rest)) : s.IsPlain := by
  intro members hs
  rcases readValue?_cases h with
    rfl | ⟨_, rfl⟩ | ⟨_, rfl⟩ | ⟨parts, rfl⟩ | ⟨_, rfl, -⟩ | ⟨_, rfl, -⟩
  case inr.inr.inr.inl => exact value?_ne_obj parts members (number.inj hs)
  all_goals cases hs

theorem isPlain_of_readItems? {fuel : Nat} {text rest : List UInt8} {items : List Source}
    (h : readItems? fuel text = some (items, rest)) : ∀ s ∈ items, s.IsPlain := by
  induction fuel generalizing text items with
  | zero => cases h
  | succ fuel ih =>
    simp only [readItems?, Option.bind_eq_bind, Option.bind_eq_some_iff, Prod.exists] at h
    obtain ⟨item, text, hitem, h⟩ := h
    split at h
    · obtain ⟨⟨more, _⟩, hmore, h⟩ := Option.bind_eq_some_iff.1 h
      cases h
      exact List.forall_mem_cons.2 ⟨isPlain_of_readValue? hitem, ih hmore⟩
    · cases h
      exact List.forall_mem_singleton.2 (isPlain_of_readValue? hitem)
    · cases h

theorem isPlain_of_readMembers? {fuel : Nat} {text rest : List UInt8}
    {members : List (Option String × Source)}
    (h : readMembers? fuel text = some (members, rest)) : ∀ m ∈ members, m.2.IsPlain := by
  induction fuel generalizing text members with
  | zero => cases h
  | succ fuel ih =>
    rw [readMembers?] at h
    split at h
    · simp only [Option.bind_eq_bind, Option.bind_eq_some_iff, Prod.exists] at h
      obtain ⟨name, text, -, h⟩ := h
      split at h
      · obtain ⟨⟨value, text⟩, hvalue, h⟩ := Option.bind_eq_some_iff.1 h
        simp only at h
        split at h
        · obtain ⟨⟨more, _⟩, hmore, h⟩ := Option.bind_eq_some_iff.1 h
          cases h
          exact List.forall_mem_cons.2 ⟨isPlain_of_readValue? hvalue, ih hmore⟩
        · cases h
          exact List.forall_mem_singleton.2 (isPlain_of_readValue? hvalue)
        · cases h
      · cases h
    · cases h

def children : Source → List Source
  | .array items => items
  | .object members => members.map Prod.snd
  | _ => []

theorem isPlain_of_read? {text : List UInt8} {s : Source} (h : read? text = some s) :
    ∀ child ∈ s.children, child.IsPlain := by
  obtain ⟨⟨value, rest⟩, hvalue, h⟩ := Option.bind_eq_some_iff.1 h
  simp only at h
  split at h
  · cases h
    rcases readValue?_cases hvalue with
      rfl | ⟨_, rfl⟩ | ⟨_, rfl⟩ | ⟨_, rfl⟩ | ⟨items, rfl, hitems⟩ | ⟨members, rfl, hmembers⟩
    · exact List.forall_mem_nil _
    · exact List.forall_mem_nil _
    · exact List.forall_mem_nil _
    · exact List.forall_mem_nil _
    · rcases hitems with rfl | ⟨_, _, _, hitems⟩
      · exact List.forall_mem_nil _
      · exact isPlain_of_readItems? hitems
    · rcases hmembers with rfl | ⟨_, _, _, hmembers⟩
      · exact List.forall_mem_nil _
      · exact List.forall_mem_map.2 (isPlain_of_readMembers? hmembers)
  · cases h

end Source

end Json

namespace Incoming

open Json (Source)

theorem exists_of_mem_mapM {α β : Type} {f : α → Option β} {xs : List α} :
    ∀ {ys : List β}, xs.mapM f = some ys → ∀ y ∈ ys, ∃ x ∈ xs, f x = some y := by
  induction xs with
  | nil =>
    intro ys h y hy
    cases h
    cases hy
  | cons x xs ih =>
    intro ys h y hy
    simp only [List.mapM_cons, Option.bind_eq_bind, Option.bind_eq_some_iff] at h
    obtain ⟨first, hfirst, rest, hrest, h⟩ := h
    cases h
    rcases List.mem_cons.1 hy with rfl | hy
    · exact ⟨x, List.mem_cons_self, hfirst⟩
    · obtain ⟨x', hx', hf⟩ := ih hrest y hy
      exact ⟨x', List.mem_cons_of_mem _ hx', hf⟩

/-- The fields of a tree are right below it. -/
theorem mem_children_of_fieldSources? {names : List String} {s field : Source}
    {fields : List (Option Source)} (h : fieldSources? names s = some fields)
    (hf : some field ∈ fields) : field ∈ s.children := by
  cases s with
  | object members =>
    rw [fieldSources?] at h
    split at h
    · cases h
    · obtain ⟨name, -, hname⟩ := exists_of_mem_mapM h _ hf
      split at hname
      · cases hname
      · rename_i key value hfilter
        cases hname
        have hmem : (key, field) ∈ members.filter fun member => member.1 == some name := by
          rw [show members.filter (fun member => member.1 == some name) = [(key, field)] from
            hfilter]
          exact List.mem_singleton_self _
        exact List.mem_map_of_mem (f := Prod.snd) (List.mem_filter.1 hmem).1
      · cases hname
  | array items =>
    rw [fieldSources?] at h
    split at h
    · cases h
    · cases h
      have hitem := List.mem_of_mem_take hf
      simpa [Source.children] using hitem
  | _ => cases h

/-- An envelope's result that is an object has each name once. -/
theorem sorted_of_readEnvelope? {text : List UInt8} {e : Envelope}
    (h : (Source.read? text).bind readEnvelope? = some e) {members : List (String × Json)}
    (hm : e.result = some (.obj members)) : Keyed.Sorted members := by
  obtain ⟨s, hs, h⟩ := Option.bind_eq_some_iff.1 h
  simp only [readEnvelope?, Option.bind_eq_bind, Option.bind_eq_some_iff] at h
  obtain ⟨fields, hfields, h⟩ := h
  split at h
  · rename_i result _
    obtain ⟨_, -, h⟩ := Option.bind_eq_some_iff.1 h
    obtain ⟨_, -, h⟩ := Option.bind_eq_some_iff.1 h
    obtain ⟨_, -, h⟩ := Option.bind_eq_some_iff.1 h
    cases result with
    | none =>
      obtain ⟨value, hvalue, h⟩ := Option.bind_eq_some_iff.1 h
      obtain ⟨_, -, h⟩ := Option.bind_eq_some_iff.1 h
      cases h
      cases hvalue
      cases hm
    | some source =>
      obtain ⟨value, hvalue, h⟩ := Option.bind_eq_some_iff.1 h
      obtain ⟨_, -, h⟩ := Option.bind_eq_some_iff.1 h
      cases h
      obtain ⟨j, hj, rfl⟩ := Option.map_eq_some_iff.1 hvalue
      cases hm
      refine Source.sorted_of_toJson? (Source.isPlain_of_read? hs source ?_) hj
      exact mem_children_of_fieldSources? hfields (by simp)
  · cases h

/-- An answer that is an object has each name once. -/
theorem nodup_of_decode {body : List UInt8} {id : RequestId} {members : List (String × Json)}
    (h : decode body = .ok (.response id (.ok (.obj members)))) :
    (Keyed.names members).Nodup := by
  unfold decode at h
  split at h
  · rename_i e he
    refine (sorted_of_readEnvelope? he ?_).nodup
    unfold ofEnvelope at h
    repeat' split at h
    all_goals cases h
    assumption
  · cases h

end Incoming

/-! ## Reading the fields of a record -/

namespace Fields

variable {α β : Type} {name : String} {read : Decoder α} {absent : Option α} {rest : Fields β}

/-- The slots of a record by its first field and the others. -/
def slots (slot : Option α) (others : Slots rest) : Slots (field [name] read absent rest) :=
  (slot, others)

/-- A slot is filled by the member of a name, if there is one, and it can be read. -/
def Fills (name : String) (read : Decoder α) (members : List (String × Json))
    (slot : Option α) : Prop :=
  match Keyed.get? name members with
  | some value => ∃ x, read value = .ok x ∧ slot = some x
  | none => slot = none

/-- What a field takes from an object: what its decoder makes of the member of its name, or the
default. -/
def taken? (name : String) (read : Decoder α) (absent : Option α) (members : List (String × Json)) :
    Option α :=
  match Keyed.get? name members with
  | some value => (read value).toOption
  | none => absent

theorem taken?_eq_some_iff {members : List (String × Json)} {x : α} :
    taken? name read absent members = some x ↔
      ∃ slot, Fills name read members slot ∧ (slot <|> absent) = some x := by
  unfold taken? Fills
  cases Keyed.get? name members with
  | none => simp
  | some value => cases h : read value <;> simp [Except.toOption, h]

theorem put_self (value : Json) (others : Slots rest) :
    (field [name] read absent rest).put name value (slots none others) =
      (read value).map fun x => slots (some x) others := by
  simp only [put, slots, List.contains_cons, beq_self_eq_true, Bool.true_or, if_true]
  cases read value <;> rfl

theorem put_of_ne {key : String} (hkey : key ≠ name) (value : Json) (slot : Option α)
    (others : Slots rest) :
    (field [name] read absent rest).put key value (slots slot others) =
      (rest.put key value others).map (slots slot) := by
  simp only [put, slots, List.contains_cons, beq_false_of_ne hkey, List.contains_nil,
    Bool.or_false, Bool.false_eq_true, if_false]
  cases rest.put key value others <;> rfl

/-- A field lets the members of other names pass. -/
theorem putAll_of_not_mem {members : List (String × Json)} (h : name ∉ Keyed.names members)
    (slot : Option α) : ∀ others : Slots rest,
      (field [name] read absent rest).putAll members (slots slot others) =
        (rest.putAll members others).map (slots slot) := by
  induction members with
  | nil => exact fun _ => rfl
  | cons member members ih =>
    obtain ⟨key, value⟩ := member
    rw [Keyed.names_cons, List.mem_cons, not_or] at h
    intro others
    rw [putAll, putAll, put_of_ne (Ne.symm h.1)]
    cases rest.put key value others with
    | error e => rfl
    | ok others => exact ih h.2 others

/-- Reading all members fills a field by the member of its name, and the fields behind it by the
others. -/
theorem putAll_field {members : List (String × Json)} (hn : (Keyed.names members).Nodup) :
    ∀ {others : Slots rest} {filled : Slots (field [name] read absent rest)},
      (field [name] read absent rest).putAll members (slots none others) = .ok filled ↔
        ∃ slot others', filled = slots slot others' ∧ Fills name read members slot ∧
          rest.putAll (Keyed.erase name members) others = .ok others' := by
  induction members with
  | nil =>
    intro others filled
    simp only [putAll, Fills, Keyed.get?_nil, Keyed.erase, List.filter_nil, Except.ok.injEq]
    constructor
    · rintro rfl
      exact ⟨none, others, rfl, rfl, rfl⟩
    · rintro ⟨_, _, rfl, rfl, rfl⟩
      rfl
  | cons member members ih =>
    obtain ⟨key, value⟩ := member
    rw [Keyed.names_cons, List.nodup_cons] at hn
    intro others filled
    by_cases hkey : key = name
    · subst hkey
      have herase : Keyed.erase key ((key, value) :: members) = members := by
        rw [Keyed.erase, List.filter_cons_of_neg (by simp), List.filter_eq_self]
        rintro ⟨other, _⟩ hm
        simpa using fun he : other = key => hn.1 (he ▸ List.mem_map_of_mem (f := Prod.fst) hm)
      rw [putAll, put_self, herase]
      simp only [Fills, Keyed.get?_cons, if_true]
      cases hread : read value with
      | error e => simp [Except.map]
      | ok x =>
        simp only [Except.map, putAll_of_not_mem hn.1, Except.ok.injEq]
        cases hrest : rest.putAll members others with
        | error e => simp
        | ok others' => simp [eq_comm]
    · have herase : Keyed.erase name ((key, value) :: members) =
          (key, value) :: Keyed.erase name members :=
        List.filter_cons_of_pos (by simpa using hkey)
      have hfills : Fills name read ((key, value) :: members) = Fills name read members := by
        funext slot
        rw [Fills, Keyed.get?_cons, if_neg hkey, Fills]
      rw [putAll, put_of_ne hkey, herase, putAll, hfills]
      cases rest.put key value others with
      | error e => simp [Except.map]
      | ok others' => exact ih hn.2

theorem finish_slots (slot : Option α) (others : Slots rest) {x : α} {xs : β} :
    (field [name] read absent rest).finish (slots slot others) = .ok (x, xs) ↔
      (slot <|> absent) = some x ∧ rest.finish others = .ok xs := by
  simp only [finish, slots]
  cases slot <|> absent with
  | none => simp
  | some y =>
    simp only
    cases rest.finish others <;> simp

theorem read_obj_iff {τ : Type} {fields : Fields τ} {record : String}
    {members : List (String × Json)} {y : τ} :
    fields.read record (.obj members) = .ok y ↔
      ∃ filled, fields.putAll members fields.empty = .ok filled ∧ fields.finish filled = .ok y := by
  rw [Fields.read]
  cases fields.putAll members fields.empty <;> simp

/-- A record without fields is read from every object. -/
theorem read_done (record : String) (members : List (String × Json)) :
    done.read record (.obj members) = .ok () := by
  have hall : done.putAll members () = .ok () := by
    induction members with
    | nil => rfl
    | cons member members ih => exact ih
  exact read_obj_iff.2 ⟨(), hall, rfl⟩

/-- A record is read from an object field by field: the first one is taken from it, and the others
are read from the members that are left. -/
theorem read_field_iff {record : String} {members : List (String × Json)}
    (hn : (Keyed.names members).Nodup) {x : α} {xs : β} :
    (field [name] read absent rest).read record (.obj members) = .ok (x, xs) ↔
      taken? name read absent members = some x ∧
        rest.read record (.obj (Keyed.erase name members)) = .ok xs := by
  rw [read_obj_iff, read_obj_iff, taken?_eq_some_iff]
  constructor
  · rintro ⟨filled, hall, hfinish⟩
    obtain ⟨slot, others, rfl, hslot, hothers⟩ := (putAll_field hn).1 hall
    obtain ⟨hx, hxs⟩ := (finish_slots slot others).1 hfinish
    exact ⟨⟨slot, hslot, hx⟩, others, hothers, hxs⟩
  · rintro ⟨⟨slot, hslot, hx⟩, others, hothers, hxs⟩
    exact ⟨slots slot others, (putAll_field hn).2 ⟨slot, others, rfl, hslot, hothers⟩,
      (finish_slots slot others).2 ⟨hx, hxs⟩⟩

/-- The members that are left behind a field have each name once, too. -/
theorem nodup_erase {members : List (String × Json)} (hn : (Keyed.names members).Nodup)
    (name : String) : (Keyed.names (Keyed.erase name members)).Nodup :=
  (Keyed.names_filter_sublist _ members).nodup hn

end Fields

end LanguageClient
