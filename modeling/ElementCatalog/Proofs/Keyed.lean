import ElementCatalog.Keyed
import Mathlib.Data.List.Induction
import Mathlib.Data.List.Nodup

/-!
# Maps that are read

Members of an object are put into a map one after another. So a map that is read has no key twice,
and nothing is in it that is no member (`Keyed.ofMembers_spec`). Members with distinct keys are the
map already (`Keyed.ofMembers_of_nodup`). Of a repeated key the first position and the last value
count (`Keyed.keys_ofMembers`, `Keyed.get?_ofMembers_eq_some_iff`).
-/

namespace ElementCatalog

namespace Keyed

variable {α : Type} {map : Keyed α} {key : String} {value : α}

/-- Putting a value under a key makes no key twice. -/
theorem nodup_keys_put (distinct : (keys map).Nodup) : (keys (put key value map)).Nodup := by
  by_cases h : key ∈ keys map
  · rw [keys_put_of_mem h]
    exact distinct
  · rw [put_of_not_mem h, keys, List.map_append]
    exact List.nodup_append'.2 ⟨distinct, List.nodup_singleton key, List.disjoint_singleton.2 h⟩

/-- An entry of a map with a value put under a key is the new one or was there. -/
theorem eq_or_mem_of_mem_put {entry : String × α} (h : entry ∈ put key value map) :
    entry = (key, value) ∨ entry ∈ map := by
  induction map with
  | nil => exact .inl (List.mem_singleton.1 h)
  | cons first rest ih =>
    rw [put] at h
    split at h
    · next heq =>
      rw [heq] at h
      exact (List.mem_cons.1 h).imp_right (List.mem_cons_of_mem _)
    · rcases List.mem_cons.1 h with rfl | h
      · exact .inr List.mem_cons_self
      · exact (ih h).imp_right (List.mem_cons_of_mem _)

/-- A map made of members has no key twice, and its entries are members. -/
theorem ofMembers_spec (members : List (String × α)) :
    (keys (ofMembers members)).Nodup ∧ ofMembers members ⊆ members := by
  rw [ofMembers]
  -- Along the way some members have been put already, and the others follow.
  suffices h : ∀ (rest : List (String × α)) (map : Keyed α), (keys map).Nodup → map ⊆ members →
      rest ⊆ members →
      let made := rest.foldl (fun map member => put member.1 member.2 map) map
      (keys made).Nodup ∧ made ⊆ members from
    h members [] List.nodup_nil (List.nil_subset _) (List.Subset.refl _)
  intro rest
  induction rest with
  | nil => exact fun map distinct hmap _ => ⟨distinct, hmap⟩
  | cons member rest ih =>
    intro map distinct hmap hrest
    obtain ⟨hmember, hrest⟩ := List.cons_subset.1 hrest
    refine ih _ (nodup_keys_put distinct) (fun entry hentry => ?_) hrest
    rcases eq_or_mem_of_mem_put hentry with rfl | hentry
    · exact hmember
    · exact hmap hentry

/-- Members with distinct keys are the map that is made of them. -/
theorem ofMembers_of_nodup {members : List (String × α)} (distinct : (keys members).Nodup) :
    ofMembers members = members := by
  suffices h : ∀ rest map : List (String × α), (keys (map ++ rest)).Nodup →
      rest.foldl (fun map member => put member.1 member.2 map) map = map ++ rest from
    h members [] distinct
  intro rest
  induction rest with
  | nil => exact fun map _ => (List.append_nil map).symm
  | cons member rest ih =>
    intro map distinct
    have hnew : member.1 ∉ keys map := by
      intro hmem
      rw [keys, List.map_append, List.nodup_append'] at distinct
      exact distinct.2.2 hmem List.mem_cons_self
    rw [List.foldl_cons, put_of_not_mem hnew, ih _ (by simpa using distinct)]
    simp

/-- A map that is made of members and of one more is the map of the members with the last one put
into it. -/
theorem ofMembers_concat (members : List (String × α)) (last : String × α) :
    ofMembers (members ++ [last]) = put last.1 last.2 (ofMembers members) := by
  rw [ofMembers, List.foldl_append]
  rfl

/-- The keys of a map that is made of members are those of the members, each at its first place. -/
theorem keys_ofMembers (members : List (String × α)) :
    keys (ofMembers members) = (keys members).eraseDups := by
  induction members using List.reverseRecOn with
  | nil => rfl
  | append_singleton members last ih =>
    have hkeys : keys (members ++ [last]) = keys members ++ [last.1] := List.map_append
    rw [ofMembers_concat, hkeys, List.eraseDups_append, ← ih]
    by_cases h : last.1 ∈ keys members
    · rw [keys_put_of_mem (by rwa [ih, List.mem_eraseDups])]
      simp [List.removeAll, h]
    · rw [put_of_not_mem (by rwa [ih, List.mem_eraseDups])]
      have hnew : List.elem last.1 (keys members) = false := by
        rw [List.elem_eq_mem, decide_eq_false h]
      rw [List.removeAll, List.filter_singleton, hnew]
      simp [keys, List.eraseDups_cons]

/-- The last value that stands under a key among members. -/
def LastUnder (key : String) (value : α) (members : List (String × α)) : Prop :=
  ∃ front back, members = front ++ (key, value) :: back ∧ key ∉ keys back

/-- With one more member, the last value under its key is its own, and that under any other key is
the one from before. -/
theorem lastUnder_concat {members : List (String × α)} {last : String × α} :
    LastUnder key value (members ++ [last]) ↔
      if key = last.1 then value = last.2 else LastUnder key value members := by
  constructor
  · rintro ⟨front, back, heq, hback⟩
    rcases List.eq_nil_or_concat' back with rfl | ⟨back, member, rfl⟩
    · obtain ⟨-, hlast⟩ := List.append_inj' heq rfl
      obtain rfl := List.singleton_inj.1 hlast
      simp
    · rw [← List.cons_append, ← List.append_assoc] at heq
      obtain ⟨rfl, hlast⟩ := List.append_inj' heq rfl
      obtain rfl := List.singleton_inj.1 hlast
      simp only [keys, List.map_append, List.mem_append, not_or] at hback
      rw [if_neg (by simpa using hback.2)]
      exact ⟨front, back, rfl, hback.1⟩
  · split
    · rintro rfl
      next hkey => exact ⟨members, [], by rw [hkey], List.not_mem_nil⟩
    · rintro ⟨front, back, rfl, hback⟩
      next hkey =>
        refine ⟨front, back ++ [last], by simp, ?_⟩
        simpa [keys, hkey] using hback

/-- Under a key of a map that is made of members stands the last value that stands under the key
among the members. -/
theorem get?_ofMembers_eq_some_iff {members : List (String × α)} :
    get? (ofMembers members) key = some value ↔ LastUnder key value members := by
  induction members using List.reverseRecOn with
  | nil => simp [ofMembers, get?, LastUnder]
  | append_singleton members last ih =>
    rw [ofMembers_concat, lastUnder_concat]
    split
    · next hkey => rw [hkey, get?_put_self, Option.some.injEq, eq_comm]
    · next hkey => rw [get?_put_of_ne hkey, ih]

/-- What becomes of the last value under a key stands last where the keys stay. -/
theorem LastUnder.map_snd {β : Type} {members : List (String × α)} (f : α → β)
    (h : LastUnder key value members) :
    LastUnder key (f value) (members.map fun member => (member.1, f member.2)) := by
  obtain ⟨front, back, rfl, hback⟩ := h
  rw [List.map_append, List.map_cons]
  exact ⟨_, _, rfl, by simpa [keys] using hback⟩

/-- A value that stands last under a key is one of the members. -/
theorem LastUnder.mem {members : List (String × α)} (h : LastUnder key value members) :
    (key, value) ∈ members := by
  obtain ⟨front, back, rfl, -⟩ := h
  simp

/-- Where keys are distinct, each member stands last under its key. -/
theorem lastUnder_of_mem {members : List (String × α)} (distinct : (keys members).Nodup)
    (h : (key, value) ∈ members) : LastUnder key value members := by
  obtain ⟨front, back, rfl⟩ := List.append_of_mem h
  rw [keys, List.map_append, List.nodup_append'] at distinct
  exact ⟨front, back, rfl, (List.nodup_cons.1 distinct.2.1).1⟩

/-- Under each key some value stands last. -/
theorem exists_lastUnder {members : List (String × α)} (h : key ∈ keys members) :
    ∃ value, LastUnder key value members := by
  induction members using List.reverseRecOn with
  | nil => exact absurd h List.not_mem_nil
  | append_singleton members last ih =>
    simp only [lastUnder_concat]
    split
    · exact ⟨last.2, rfl⟩
    · next hne =>
      refine ih ?_
      simpa [keys, hne] using h

/-- Maps with the same distinct keys are equal if they have the same values under them. -/
theorem eq_of_keys_eq {other : Keyed α} (distinct : (keys map).Nodup) (hkeys : keys map = keys other)
    (h : ∀ key ∈ keys map, get? map key = get? other key) : map = other := by
  induction map generalizing other with
  | nil => exact (List.map_eq_nil_iff.1 hkeys.symm).symm
  | cons entry rest ih =>
    cases other with
    | nil => cases hkeys
    | cons first others =>
      obtain ⟨hkey, hrest⟩ := List.cons_eq_cons.1 hkeys
      obtain ⟨hnew, distinct⟩ := List.nodup_cons.1 distinct
      have hvalue := h entry.1 List.mem_cons_self
      simp only [get?, if_true, if_pos hkey.symm, Option.some.injEq] at hvalue
      rw [ih distinct hrest fun key hmem => ?_, Prod.ext hkey hvalue]
      -- The keys of the other entries differ from that of the first one.
      have hne : entry.1 ≠ key := fun heq => hnew (heq ▸ hmem)
      have hvalue := h key (List.mem_cons_of_mem _ hmem)
      rwa [get?, if_neg hne, get?, if_neg (hkey ▸ hne)] at hvalue

end Keyed

end ElementCatalog
