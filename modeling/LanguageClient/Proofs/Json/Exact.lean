import LanguageClient.Proofs.Json.Members
import LanguageClient.Proofs.Json.Reading

/-!
# Values whose text is read back exactly

A value that can be held at all has integers of 64 bits and objects with each
name once, in order. Unless there is a floating-point number in it, which may
come back as a neighbour, its text is read as the value itself if the reader
goes as deep as the value does.

* `toJson?_source`: what is read to any depth that is enough.
* `parse?_toBytes`: what a whole text is read as.
-/
namespace LanguageClient.Json

mutual

/-- How many arrays and objects lie within each other. -/
def levels : Json → Nat
  | arr items => itemsLevels items + 1
  | obj members => membersLevels members + 1
  | _ => 0

def itemsLevels : List Json → Nat
  | [] => 0
  | item :: items => max (levels item) (itemsLevels items)

def membersLevels : List (String × Json) → Nat
  | [] => 0
  | (_, value) :: members => max (levels value) (membersLevels members)

end

mutual

/-- A value without floating-point numbers, with integers of 64 bits and the names of every object
in order. -/
def Exact : Json → Prop
  | int n => FitsInt n
  | float _ => False
  | arr items => ExactItems items
  | obj members => Keyed.Sorted members ∧ ExactMembers members
  | _ => True

def ExactItems : List Json → Prop
  | [] => True
  | item :: items => Exact item ∧ ExactItems items

def ExactMembers : List (String × Json) → Prop
  | [] => True
  | (_, value) :: members => Exact value ∧ ExactMembers members

end

/-- An exact value of at most `n` levels. -/
structure Within (n : Nat) (j : Json) : Prop where
  exact : j.Exact
  levels : j.levels ≤ n

theorem Within.mono {n m : Nat} {j : Json} (h : j.Within n) (hle : n ≤ m) : j.Within m :=
  ⟨h.exact, Nat.le_trans h.levels hle⟩

theorem within_int {n : Nat} {i : Int} (h : FitsInt i) : (int i).Within n :=
  ⟨h, Nat.zero_le n⟩

theorem within_str (n : Nat) (s : String) : (str s).Within n :=
  ⟨trivial, Nat.zero_le n⟩

theorem within_bool (n : Nat) (b : Bool) : (bool b).Within n :=
  ⟨trivial, Nat.zero_le n⟩

theorem within_arr {n : Nat} {items : List Json} (h : ∀ item ∈ items, item.Within n) :
    (arr items).Within (n + 1) := by
  suffices hitems : ExactItems items ∧ itemsLevels items ≤ n from
    ⟨hitems.1, Nat.succ_le_succ hitems.2⟩
  induction items with
  | nil => exact ⟨trivial, Nat.zero_le n⟩
  | cons item items ih =>
    obtain ⟨hitem, hitems⟩ := List.forall_mem_cons.1 h
    have ih := ih hitems
    exact ⟨⟨hitem.exact, ih.1⟩, max_le hitem.levels ih.2⟩

theorem within_obj {n : Nat} {members : List (String × Json)} (hsorted : Keyed.Sorted members)
    (h : ∀ member ∈ members, member.2.Within n) : (obj members).Within (n + 1) := by
  suffices hmembers : ExactMembers members ∧ membersLevels members ≤ n from
    ⟨⟨hsorted, hmembers.1⟩, Nat.succ_le_succ hmembers.2⟩
  clear hsorted
  induction members with
  | nil => exact ⟨trivial, Nat.zero_le n⟩
  | cons member members ih =>
    obtain ⟨hmember, hmembers⟩ := List.forall_mem_cons.1 h
    have ih := ih hmembers
    exact ⟨⟨hmember.exact, ih.1⟩, max_le hmember.levels ih.2⟩

/-! ## Members in order -/

theorem insert_last {name : String} {members : List (String × Json)}
    (h : ∀ k ∈ Keyed.names members, k < name) (value : Json) :
    Keyed.insert name value members = members ++ [(name, value)] := by
  induction members with
  | nil => rfl
  | cons member members ih =>
    obtain ⟨k, v⟩ := member
    have ⟨hk, hmembers⟩ := List.forall_mem_cons.1 h
    rw [Keyed.insert, if_neg (not_lt_of_gt hk), if_neg (ne_of_gt hk), ih hmembers, List.cons_append]

/-- An object is made of members in order as they are. -/
theorem object_of_sorted {members : List (String × Json)} (h : Keyed.Sorted members) :
    object members = obj members := by
  suffices hall : ∀ all : List (String × Json), Keyed.Sorted (all ++ members) →
      members.foldl (fun all member => insertMember member.1 member.2 all) all =
        all ++ members from
    congrArg obj (hall [] h)
  clear h
  induction members with
  | nil => exact fun all _ => (List.append_nil all).symm
  | cons member members ih =>
    obtain ⟨name, value⟩ := member
    intro all hall
    have hbefore : ∀ k ∈ Keyed.names all, k < name := by
      rw [Keyed.Sorted, Keyed.names, List.map_append, List.pairwise_append] at hall
      exact fun k hk => hall.2.2 k hk name List.mem_cons_self
    rw [List.foldl_cons, insertMember_eq, insert_last hbefore, ih _ (by simpa using hall)]
    simp

/-! ## Reading back -/

mutual

/-- The tree of an exact value is read as the value, to any depth that is enough. -/
theorem toJson?_source : ∀ (j : Json) {depth : Nat}, j.Exact → j.levels ≤ depth →
    j.source.toJson? depth = some j := by
  intro j depth hexact hdepth
  match j with
  | null => rfl
  | bool b => rfl
  | int n => rw [source_int hexact, Source.toJson?]
  | float x => exact hexact.elim
  | str s => rfl
  | arr items =>
    obtain ⟨depth, rfl⟩ : ∃ more, depth = more + 1 := ⟨depth - 1, by rw [levels] at hdepth; omega⟩
    have hitems : Source.itemsToJson? depth (sourceItems items) = some items :=
      itemsToJson?_source items hexact (Nat.le_of_succ_le_succ (by rwa [levels] at hdepth))
    rw [source, Source.toJson?, hitems]
    rfl
  | obj members =>
    obtain ⟨depth, rfl⟩ : ∃ more, depth = more + 1 := ⟨depth - 1, by rw [levels] at hdepth; omega⟩
    rw [Exact] at hexact
    have hmembers : Source.membersToJson? depth (sourceMembers members) = some members :=
      membersToJson?_source members hexact.2
        (Nat.le_of_succ_le_succ (by rwa [levels] at hdepth))
    rw [source, Source.toJson?, hmembers, Option.map_eq_map, Option.map_some,
      object_of_sorted hexact.1]

theorem itemsToJson?_source : ∀ (items : List Json) {depth : Nat}, ExactItems items →
    itemsLevels items ≤ depth →
      Source.itemsToJson? depth (sourceItems items) = some items := by
  intro items depth hexact hdepth
  match items with
  | [] => rfl
  | item :: items =>
    rw [itemsLevels, max_le_iff] at hdepth
    rw [sourceItems, Source.itemsToJson?, toJson?_source item hexact.1 hdepth.1,
      itemsToJson?_source items hexact.2 hdepth.2]
    rfl

theorem membersToJson?_source : ∀ (members : List (String × Json)) {depth : Nat},
    ExactMembers members → membersLevels members ≤ depth →
      Source.membersToJson? depth (sourceMembers members) = some members := by
  intro members depth hexact hdepth
  match members with
  | [] => rfl
  | (name, value) :: members =>
    rw [membersLevels, max_le_iff] at hdepth
    rw [sourceMembers, Source.membersToJson?, toJson?_source value hexact.1 hdepth.1,
      membersToJson?_source members hexact.2 hdepth.2]
    rfl

end

/-- The text of an exact value that is not too deep is read as the value. -/
theorem parse?_toBytes {j : Json} (h : j.Within maxDepth) : parse? j.toBytes = some j := by
  rw [parse?, read?_toBytes]
  exact toJson?_source j h.exact h.levels

end LanguageClient.Json
