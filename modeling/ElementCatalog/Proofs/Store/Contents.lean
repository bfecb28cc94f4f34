import ElementCatalog.Store.Basic

/-!
# What a store holds after several keys are changed

Putting values under keys and removing keys changes what is found under these keys, and nothing
else.
-/

namespace ElementCatalog.Store

variable {α : Type} {entries : List (String × α)} {keys : List String}
  {map : Std.ExtTreeMap String α} {key : String} {value : α}

/-- Putting values under other keys leaves a key as it is. -/
theorem getElem?_insertAll_of_not_mem (h : key ∉ entries.map Prod.fst) :
    (insertAll entries map)[key]? = map[key]? := by
  induction entries generalizing map with
  | nil => rfl
  | cons entry rest ih =>
    simp only [List.map_cons, List.mem_cons, not_or] at h
    rw [insertAll, List.foldl_cons, ← insertAll, ih h.2]
    simp [Std.ExtTreeMap.getElem?_insert, Ne.symm h.1]

/-- Under distinct keys, each value that is put under a key is found there. -/
theorem getElem?_insertAll_of_mem (distinct : (entries.map Prod.fst).Nodup)
    (h : (key, value) ∈ entries) : (insertAll entries map)[key]? = some value := by
  induction entries generalizing map with
  | nil => cases h
  | cons entry rest ih =>
    obtain ⟨hentry, hrest⟩ := List.nodup_cons.1 distinct
    rw [insertAll, List.foldl_cons, ← insertAll]
    rcases List.mem_cons.1 h with rfl | h
    -- No later entry has the key of the first one.
    · rw [getElem?_insertAll_of_not_mem hentry]
      simp
    · exact ih hrest h

/-- Nothing is found under a key that is removed, and other keys stay. -/
theorem getElem?_eraseAll : (eraseAll keys map)[key]? = if key ∈ keys then none else map[key]? := by
  induction keys generalizing map with
  | nil => rfl
  | cons other rest ih =>
    rw [eraseAll, List.foldl_cons, ← eraseAll, ih, Std.ExtTreeMap.getElem?_erase]
    by_cases hrest : key ∈ rest
    · simp [hrest]
    · by_cases hkey : other = key
      · simp [hkey]
      · simp [hrest, hkey, Ne.symm hkey]

end ElementCatalog.Store
