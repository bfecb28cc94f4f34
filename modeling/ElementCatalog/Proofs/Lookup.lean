import ElementCatalog.Keyed
import Mathlib.Algebra.GroupWithZero.Nat
import Mathlib.Data.List.Forall2
import Mathlib.Data.List.Nodup

/-!
# Look-ups in lists

An item is found at its position (`exists_append_of_getElem?_eq_some`), and items that are counted
at most once are found at one position only (`one_lt_countP`, `countP_le_one`). In a list of entries
with distinct keys, an entry is found under its key (`lookup_eq_some_of_mem`,
`Keyed.get?_eq_some_iff`), and putting another value there changes just this entry
(`Keyed.put_append`). Dropping repetitions leaves distinct keys (`nodup_eraseDups`).
-/

namespace ElementCatalog

/-- The item at a position, with the items in front of it and behind it. -/
theorem exists_append_of_getElem?_eq_some {α : Type} {items : List α} {position : Nat} {item : α}
    (h : items[position]? = some item) :
    ∃ front back, items = front ++ item :: back ∧ position = front.length := by
  obtain ⟨hlt, rfl⟩ := List.getElem?_eq_some_iff.1 h
  refine ⟨items.take position, items.drop (position + 1), ?_, ?_⟩
  · rw [List.getElem_cons_drop, List.take_append_drop]
  · rw [List.length_take, Nat.min_eq_left (Nat.le_of_lt hlt)]

/-- Lists that differ in one item have the same items at all other positions. -/
theorem getElem?_beside {α : Type} {front back : List α} (item other : α) {position : Nat}
    (h : position ≠ front.length) :
    (front ++ other :: back)[position]? = (front ++ item :: back)[position]? := by
  have hset : front ++ other :: back = (front ++ item :: back).set front.length other := by simp
  rw [hset, List.getElem?_set_ne (Ne.symm h)]

/-- An item in front of another one or behind it has another position. -/
theorem exists_getElem?_of_mem_beside {α : Type} {front back : List α} (item : α) {other : α}
    (h : other ∈ front ++ back) :
    ∃ j, j ≠ front.length ∧ (front ++ item :: back)[j]? = some other := by
  rcases List.mem_append.1 h with h | h
  · obtain ⟨j, hlt, rfl⟩ := List.mem_iff_getElem.1 h
    exact ⟨j, Nat.ne_of_lt hlt, by rw [List.getElem?_append_left hlt, List.getElem?_eq_getElem hlt]⟩
  · obtain ⟨j, hj⟩ := List.mem_iff_getElem?.1 h
    refine ⟨front.length + (j + 1), by omega, ?_⟩
    rw [List.getElem?_append_right (Nat.le_add_right _ _), Nat.add_sub_cancel_left,
      List.getElem?_cons_succ, hj]

/-- An item with a later position than another one lies behind it. -/
theorem mem_back_of_lt {α : Type} {front back : List α} {item other : α} {j : Nat}
    (h : (front ++ item :: back)[j]? = some other) (hlt : front.length < j) : other ∈ back := by
  rw [List.getElem?_append_right (Nat.le_of_lt hlt), List.getElem?_cons, if_neg (by omega)] at h
  exact List.mem_of_getElem? h

/-- An item that is found at two positions is counted twice. -/
theorem one_lt_countP {α : Type} {p : α → Bool} {items : List α} {i j : Nat} {a b : α} (hij : i < j)
    (ha : items[i]? = some a) (hb : items[j]? = some b) (hpa : p a) (hpb : p b) :
    1 < items.countP p := by
  obtain ⟨front, back, rfl, rfl⟩ := exists_append_of_getElem?_eq_some ha
  have := List.countP_pos_iff.2 ⟨b, mem_back_of_lt hb hij, hpb⟩
  rw [List.countP_append, List.countP_cons_of_pos hpa]
  omega

/-- An item that is found at one position only is counted once. -/
theorem countP_le_one {α : Type} {p : α → Bool} {items : List α} {i : Nat}
    (h : ∀ j a, items[j]? = some a → p a → j = i) : items.countP p ≤ 1 := by
  have hbeside {j : Nat} {a : α} (ha : items[j]? = some a) (hne : j ≠ i) : ¬ p a :=
    fun hpa => hne (h j a ha hpa)
  -- Neither the items in front of the position nor those behind it are counted.
  have hfront : (items.take i).countP p = 0 := by
    refine List.countP_eq_zero.2 fun a ha => ?_
    obtain ⟨j, hj⟩ := List.mem_iff_getElem?.1 ha
    rw [List.getElem?_take] at hj
    split at hj
    · next hlt => exact hbeside hj (Nat.ne_of_lt hlt)
    · cases hj
  have hback : (items.drop (i + 1)).countP p = 0 := by
    refine List.countP_eq_zero.2 fun a ha => ?_
    obtain ⟨j, hj⟩ := List.mem_iff_getElem?.1 ha
    rw [List.getElem?_drop] at hj
    exact hbeside hj (by omega)
  have hdrop : (items.drop i).countP p ≤ 1 := by
    cases hd : items.drop i with
    | nil => simp
    | cons a rest =>
      obtain rfl : rest = items.drop (i + 1) := by rw [← List.drop_drop, hd]; rfl
      rw [List.countP_cons, hback]
      split <;> simp
  rw [← List.take_append_drop i items, List.countP_append]
  omega

/-- Two members that are counted once together are the same. -/
theorem eq_of_countP_le_one {α : Type} {p : α → Bool} {list : List α} (h : list.countP p ≤ 1)
    {a b : α} (ha : a ∈ list) (hb : b ∈ list) (hpa : p a) (hpb : p b) : a = b := by
  rw [List.countP_eq_length_filter] at h
  have ha' : a ∈ list.filter p := List.mem_filter.2 ⟨ha, hpa⟩
  have hb' : b ∈ list.filter p := List.mem_filter.2 ⟨hb, hpb⟩
  match hlist : list.filter p, h with
  | [], _ => simp [hlist] at ha'
  | [c], _ =>
    rw [hlist, List.mem_singleton] at ha' hb'
    exact ha'.trans hb'.symm

/-- Items that count at least once if they are counted sum up to at least their count. -/
theorem countP_le_sum {α : Type} {p : α → Bool} {f : α → Nat} {items : List α}
    (h : ∀ a ∈ items, p a → 0 < f a) : items.countP p ≤ (items.map f).sum := by
  induction items with
  | nil => simp
  | cons a rest ih =>
    have hrest := ih fun b hb => h b (List.mem_cons_of_mem _ hb)
    rw [List.countP_cons, List.map_cons, List.sum_cons]
    split
    · next hp =>
      have := h a List.mem_cons_self hp
      omega
    · omega

/-- Items of which one counts more than once sum up to more than their count. -/
theorem countP_lt_sum {α : Type} {p : α → Bool} {f : α → Nat} {items : List α}
    (h : ∀ a ∈ items, p a → 0 < f a) {a : α} (ha : a ∈ items) (hf : 1 < f a) :
    items.countP p < (items.map f).sum := by
  obtain ⟨front, back, rfl⟩ := List.append_of_mem ha
  have hfront : front.countP p ≤ (front.map f).sum :=
    countP_le_sum fun b hb => h b (List.mem_append_left _ hb)
  have hback : back.countP p ≤ (back.map f).sum :=
    countP_le_sum fun b hb => h b (List.mem_append_right _ (List.mem_cons_of_mem _ hb))
  simp only [List.countP_append, List.countP_cons, List.map_append, List.map_cons,
    List.sum_append, List.sum_cons]
  split <;> omega

/-- Items that count once if they are counted, and else not at all, sum up to their count. -/
theorem countP_eq_sum {α : Type} {p : α → Bool} {f : α → Nat} {items : List α}
    (h : ∀ a ∈ items, f a = if p a then 1 else 0) : items.countP p = (items.map f).sum := by
  induction items with
  | nil => simp
  | cons a rest ih =>
    rw [List.countP_cons, List.map_cons, List.sum_cons, ih fun b hb => h b
      (List.mem_cons_of_mem _ hb), h a List.mem_cons_self, Nat.add_comm]

/-- Under distinct keys, an entry is what is found under its key. -/
theorem lookup_eq_some_of_mem {α β : Type} [BEq α] [LawfulBEq α] {entries : List (α × β)}
    (distinct : (entries.map Prod.fst).Nodup) {key : α} {value : β} (h : (key, value) ∈ entries) :
    entries.lookup key = some value := by
  obtain ⟨front, back, rfl⟩ := List.append_of_mem h
  refine List.lookup_eq_some_iff.2 ⟨front, back, rfl, fun entry hentry => ?_⟩
  rw [List.map_append, List.nodup_append'] at distinct
  have hne : key ≠ entry.1 := by
    rintro rfl
    exact distinct.2.2 (List.mem_map_of_mem hentry) (by simp)
  simpa using hne

/-- Dropping repetitions leaves none. -/
theorem nodup_eraseDups {α : Type} [DecidableEq α] (list : List α) : list.eraseDups.Nodup := by
  cases list with
  | nil => simp
  | cons x rest =>
    rw [List.eraseDups_cons, List.nodup_cons]
    constructor
    · simp [List.mem_eraseDups]
    · exact nodup_eraseDups _
termination_by list.length
decreasing_by exact Nat.lt_succ_of_le (List.length_filter_le _ _)

/-- A member of a list that is related to another list, item by item, is related to a member of that
list. -/
theorem exists_mem_of_forall₂ {α β : Type} {r : α → β → Prop} {xs : List α} {ys : List β} {x : α}
    (h : List.Forall₂ r xs ys) (hx : x ∈ xs) : ∃ y ∈ ys, r x y := by
  induction h with
  | nil => exact absurd hx List.not_mem_nil
  | cons hhead _ ih =>
    rcases List.mem_cons.1 hx with rfl | hx
    · exact ⟨_, List.mem_cons_self, hhead⟩
    · obtain ⟨y, hy, hrelated⟩ := ih hx
      exact ⟨y, List.mem_cons_of_mem _ hy, hrelated⟩

/-- Lists that are related item by item are mapped to one list if related members are mapped to the
same. -/
theorem map_eq_map_of_forall₂ {α β γ : Type} {r : α → β → Prop} {xs : List α} {ys : List β}
    (h : List.Forall₂ r xs ys) {f : α → γ} {g : β → γ}
    (hfg : ∀ x ∈ xs, ∀ y ∈ ys, r x y → f x = g y) : xs.map f = ys.map g := by
  induction h with
  | nil => rfl
  | cons hhead _ ih =>
    rw [List.map_cons, List.map_cons, hfg _ List.mem_cons_self _ List.mem_cons_self hhead,
      ih fun x hx y hy => hfg x (List.mem_cons_of_mem _ hx) y (List.mem_cons_of_mem _ hy)]

namespace Keyed

variable {α : Type}

/-- What is found under a key is one of the entries. -/
theorem mem_of_get?_eq_some {map : Keyed α} {key : String} {value : α}
    (h : get? map key = some value) : (key, value) ∈ map := by
  induction map with
  | nil => simp [get?] at h
  | cons entry rest ih =>
    rw [get?] at h
    split at h
    · next heq =>
      obtain rfl := heq
      obtain rfl := Option.some.inj h
      exact List.mem_cons_self
    · exact List.mem_cons_of_mem _ (ih h)

/-- The entry that is found under a key, with the entries in front of it and behind it. -/
theorem exists_append_of_get?_eq_some {map : Keyed α} {key : String} {value : α}
    (h : get? map key = some value) :
    ∃ front back, map = front ++ (key, value) :: back ∧ key ∉ keys front := by
  induction map with
  | nil => simp [get?] at h
  | cons entry rest ih =>
    rw [get?] at h
    split at h
    · next heq =>
      obtain rfl := heq
      obtain rfl := Option.some.inj h
      exact ⟨[], rest, rfl, by simp [keys]⟩
    · next hne =>
      obtain ⟨front, back, rfl, hfront⟩ := ih h
      refine ⟨entry :: front, back, rfl, ?_⟩
      simpa [keys, Ne.symm hne] using hfront

/-- The entry behind others with other keys is found under its key. -/
theorem get?_append {front back : Keyed α} {key : String} {value : α} (h : key ∉ keys front) :
    get? (front ++ (key, value) :: back) key = some value := by
  induction front with
  | nil => simp [get?]
  | cons entry front ih =>
    simp only [keys, List.map_cons, List.mem_cons, not_or] at h
    rw [List.cons_append, get?, if_neg (Ne.symm h.1)]
    exact ih h.2

/-- Putting a value under a key changes just the entry that is found under it. -/
theorem put_append {front back : Keyed α} {key : String} {value : α} (h : key ∉ keys front)
    (new : α) :
    put key new (front ++ (key, value) :: back) = front ++ (key, new) :: back := by
  induction front with
  | nil => simp [put]
  | cons entry front ih =>
    simp only [keys, List.map_cons, List.mem_cons, not_or] at h
    rw [List.cons_append, put, if_neg (Ne.symm h.1), ih h.2, List.cons_append]

/-- Under distinct keys, what is found under a key is the entry with the key. -/
theorem get?_eq_some_iff {map : Keyed α} (distinct : (keys map).Nodup) {key : String} {value : α} :
    get? map key = some value ↔ (key, value) ∈ map := by
  refine ⟨mem_of_get?_eq_some, fun h => ?_⟩
  obtain ⟨front, back, rfl⟩ := List.append_of_mem h
  refine get?_append fun hkey => ?_
  rw [keys, List.map_append, List.nodup_append'] at distinct
  exact distinct.2.2 hkey (by simp)

/-- What is found under a key of mapped values is the mapped value that is found there. -/
theorem get?_map_snd {β : Type} (f : α → β) (map : Keyed α) (key : String) :
    get? (List.map (fun entry => (entry.1, f entry.2)) map) key =
      (get? map key).map f := by
  induction map with
  | nil => rfl
  | cons entry rest ih =>
    simp only [List.map_cons, get?]
    split
    · rfl
    · exact ih

/-- A mapped value is put under a key of mapped values by putting the value there first. -/
theorem put_map_snd {β : Type} (f : α → β) (map : Keyed α) (key : String) (value : α) :
    put key (f value) (List.map (fun entry => (entry.1, f entry.2)) map) =
      List.map (fun entry => (entry.1, f entry.2)) (put key value map) := by
  induction map with
  | nil => rfl
  | cons entry rest ih =>
    simp only [List.map_cons, put]
    split
    · rfl
    · rw [List.map_cons, ih]

end Keyed

end ElementCatalog
