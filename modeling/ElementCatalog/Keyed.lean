/-!
# Maps in order of insertion

A `Keyed α` is a list of keys with their values, in the order in which the keys were first put.
Putting a value under a key that is there replaces the value and keeps the key's position
(`keys_put_of_mem`); a new key comes last (`put_of_not_mem`). Reading the members of an object
puts them one after another, so a repeated key has its first position and its last value.
-/

namespace ElementCatalog

/-- Keys with values, in the order in which the keys were first put. -/
abbrev Keyed (α : Type) := List (String × α)

namespace Keyed

variable {α : Type}

/-- The keys in order. -/
def keys (map : Keyed α) : List String :=
  List.map Prod.fst map

/-- The value under a key. -/
def get? : Keyed α → String → Option α
  | [], _ => none
  | (other, held) :: rest, key => if other = key then some held else get? rest key

/-- The map with a value under a key. -/
def put (key : String) (value : α) : Keyed α → Keyed α
  | [] => [(key, value)]
  | (other, held) :: rest =>
    if other = key then (other, value) :: rest else (other, held) :: put key value rest

/-- The map made by putting members one after another. -/
def ofMembers (members : List (String × α)) : Keyed α :=
  members.foldl (fun map member => put member.1 member.2 map) []

/-- A new key comes last. -/
theorem put_of_not_mem {key : String} {map : Keyed α} (h : key ∉ keys map) (value : α) :
    put key value map = map ++ [(key, value)] := by
  induction map with
  | nil => rfl
  | cons entry rest ih =>
    simp only [keys, List.map_cons, List.mem_cons, not_or] at h
    rw [put, if_neg (Ne.symm h.1), ih h.2, List.cons_append]

/-- A key that is there keeps its position. -/
theorem keys_put_of_mem {key : String} {map : Keyed α} (h : key ∈ keys map) (value : α) :
    keys (put key value map) = keys map := by
  induction map with
  | nil => simp [keys] at h
  | cons entry rest ih =>
    rw [put]
    split
    · next heq => simp [keys]
    · next hne =>
      have hrest : key ∈ keys rest := by
        simpa [keys, Ne.symm hne] using h
      simpa [keys] using ih hrest

/-- What was put under a key is found there. -/
@[simp]
theorem get?_put_self (key : String) (value : α) (map : Keyed α) :
    get? (put key value map) key = some value := by
  induction map with
  | nil => simp [put, get?]
  | cons entry rest ih =>
    rw [put]
    split
    · next heq => simp [get?, heq]
    · next hne => simp [get?, hne, ih]

/-- What is found under other keys stays the same. -/
theorem get?_put_of_ne {key other : String} (h : other ≠ key) (value : α) (map : Keyed α) :
    get? (put key value map) other = get? map other := by
  induction map with
  | nil => simp [put, get?, Ne.symm h]
  | cons entry rest ih =>
    rw [put]
    split
    · next heq => simp [get?, heq, Ne.symm h]
    · next hne => simp only [get?, ih]

end Keyed

end ElementCatalog
