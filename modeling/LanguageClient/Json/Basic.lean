import LanguageClient.Number.Shortest

/-!
# JSON values

Integers and doubles are kept apart: a number written without a fraction or
an exponent is an integer while it fits in 64 bits, signed or unsigned. The
members of an object are a list of names and values; `object` builds it with
each name once, the last value given for it, in the order of the names.
-/
namespace LanguageClient

inductive Json where
  | null
  | bool (b : Bool)
  | int (n : Int)
  | float (x : Binary64)
  | str (s : String)
  | arr (items : List Json)
  | obj (members : List (String × Json))
  deriving Repr, Inhabited

namespace Json

mutual

def beq : Json → Json → Bool
  | null, null => true
  | bool a, bool b => a == b
  | int a, int b => a == b
  | float a, float b => a == b
  | str a, str b => a == b
  | arr a, arr b => beqItems a b
  | obj a, obj b => beqMembers a b
  | _, _ => false

def beqItems : List Json → List Json → Bool
  | [], [] => true
  | a :: as, b :: bs => beq a b && beqItems as bs
  | _, _ => false

def beqMembers : List (String × Json) → List (String × Json) → Bool
  | [], [] => true
  | (k, a) :: as, (l, b) :: bs => k == l && beq a b && beqMembers as bs
  | _, _ => false

end

instance : BEq Json := ⟨beq⟩

mutual

theorem eq_of_beq : ∀ {a b : Json}, beq a b = true → a = b
  | null, b, h => by cases b <;> first | rfl | simp [beq] at h
  | bool x, b, h => by cases b <;> simp_all [beq]
  | int n, b, h => by cases b <;> simp_all [beq]
  | float x, b, h => by cases b <;> simp_all [beq]
  | str s, b, h => by cases b <;> simp_all [beq]
  | arr xs, b, h => by
    cases b <;> simp only [beq, Bool.false_eq_true] at h
    rw [eq_of_beqItems h]
  | obj xs, b, h => by
    cases b <;> simp only [beq, Bool.false_eq_true] at h
    rw [eq_of_beqMembers h]

theorem eq_of_beqItems : ∀ {as bs : List Json}, beqItems as bs = true → as = bs
  | [], [], _ => rfl
  | [], _ :: _, h => by simp [beqItems] at h
  | _ :: _, [], h => by simp [beqItems] at h
  | a :: as, b :: bs, h => by
    simp only [beqItems, Bool.and_eq_true] at h
    rw [eq_of_beq h.1, eq_of_beqItems h.2]

theorem eq_of_beqMembers :
    ∀ {as bs : List (String × Json)}, beqMembers as bs = true → as = bs
  | [], [], _ => rfl
  | [], _ :: _, h => by simp [beqMembers] at h
  | _ :: _, [], h => by simp [beqMembers] at h
  | (k, a) :: as, (l, b) :: bs, h => by
    simp only [beqMembers, Bool.and_eq_true, beq_iff_eq] at h
    rw [h.1.1, eq_of_beq h.1.2, eq_of_beqMembers h.2]

end

mutual

theorem beq_self : ∀ a : Json, beq a a = true
  | null => rfl
  | bool x => by simp [beq]
  | int n => by simp [beq]
  | float x => by simp [beq]
  | str s => by simp [beq]
  | arr xs => by simp [beq, beqItems_self xs]
  | obj xs => by simp [beq, beqMembers_self xs]

theorem beqItems_self : ∀ as : List Json, beqItems as as = true
  | [] => rfl
  | a :: as => by simp [beqItems, beq_self a, beqItems_self as]

theorem beqMembers_self : ∀ as : List (String × Json), beqMembers as as = true
  | [] => rfl
  | (k, a) :: as => by simp [beqMembers, beq_self a, beqMembers_self as]

end

instance : LawfulBEq Json where
  eq_of_beq := eq_of_beq
  rfl := beq_self _

instance : DecidableEq Json := fun a b => decidable_of_iff _ (beq_iff_eq (a := a) (b := b))

/-- Adds a member to members in the order of their names, in place of one of that name. -/
def insertMember (name : String) (value : Json) : List (String × Json) → List (String × Json)
  | [] => [(name, value)]
  | (k, v) :: rest =>
    if name < k then (name, value) :: (k, v) :: rest
    else if name = k then (name, value) :: rest
    else (k, v) :: insertMember name value rest

/-- The object with the given members, the last one of each name. -/
def object (members : List (String × Json)) : Json :=
  obj (members.foldl (fun all (name, value) => insertMember name value all) [])

/-- The value of a member; a value that is no object has none. -/
def get? (name : String) : Json → Option Json
  | obj members => members.lookup name
  | _ => none

/-- The object with one member added or replaced. -/
def set (j : Json) (name : String) (value : Json) : Json :=
  match j with
  | obj members => obj (insertMember name value members)
  | other => other

def str? : Json → Option String
  | str s => some s
  | _ => none

def arr? : Json → Option (List Json)
  | arr items => some items
  | _ => none

def bool? : Json → Option Bool
  | bool b => some b
  | _ => none

def nat? : Json → Option Nat
  | int n => if 0 ≤ n then some n.toNat else none
  | _ => none

def isNull : Json → Bool
  | null => true
  | _ => false

/-- The member for a value that may be absent. -/
def optional (name : String) : Option Json → List (String × Json)
  | none => []
  | some v => [(name, v)]

/-- A value, or `null` in the place of none. -/
def orNull : Option Json → Json
  | none => null
  | some v => v

end Json

end LanguageClient
