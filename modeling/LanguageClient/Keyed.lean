/-!
# Values by name

A list of names and values in which a name comes at most once. `put` keeps
the place of a name that is there and adds a new one at the end; `insert`
keeps the names in order.
-/
namespace LanguageClient

/-- Values by name. -/
abbrev Keyed (α : Type) := List (String × α)

namespace Keyed

variable {α β : Type}

def get? (name : String) (entries : Keyed α) : Option α :=
  entries.lookup name

def names (entries : Keyed α) : List String :=
  entries.map Prod.fst

/-- Gives a name a value, in its place or at the end. -/
def put (name : String) (value : α) : Keyed α → Keyed α
  | [] => [(name, value)]
  | (k, v) :: rest => if k = name then (name, value) :: rest else (k, v) :: put name value rest

/-- Gives a name a value, with the names in order. -/
def insert (name : String) (value : α) : Keyed α → Keyed α
  | [] => [(name, value)]
  | (k, v) :: rest =>
    if name < k then (name, value) :: (k, v) :: rest
    else if name = k then (name, value) :: rest
    else (k, v) :: insert name value rest

def erase (name : String) (entries : Keyed α) : Keyed α :=
  entries.filter fun (k, _) => k ≠ name

def values (entries : Keyed α) : List α :=
  entries.map Prod.snd

@[simp] theorem get?_nil (name : String) : get? name ([] : Keyed α) = none := rfl

@[simp] theorem get?_cons (name k : String) (v : α) (rest : Keyed α) :
    get? name ((k, v) :: rest) = if k = name then some v else get? name rest := by
  by_cases h : k = name
  · simp [get?, h]
  · have h' : (name == k) = false := by simpa using fun e => h e.symm
    simp [get?, List.lookup_cons, h, h']

@[simp] theorem get?_put_self (name : String) (value : α) (entries : Keyed α) :
    (put name value entries).get? name = some value := by
  induction entries with
  | nil => simp [put]
  | cons entry rest ih =>
    obtain ⟨k, v⟩ := entry
    by_cases h : k = name
    · simp [put, h]
    · simp [put, h, ih]

theorem get?_put_of_ne {name other : String} (value : α) (entries : Keyed α) (h : other ≠ name) :
    (put name value entries).get? other = entries.get? other := by
  induction entries with
  | nil => simp [put, h.symm]
  | cons entry rest ih =>
    obtain ⟨k, v⟩ := entry
    by_cases hk : k = name
    · subst hk
      simp [put, h.symm]
    · simp [put, hk, ih]

end Keyed

end LanguageClient
