import ElementCatalog.Naming.Dependency
import ElementCatalog.Proofs.Lookup
import Mathlib.Data.List.Perm.Subperm
import Mathlib.Logic.Relation

/-!
# Dependencies first: what the order guarantees

`DependencyOrder.of` is described by the relation "`a` needs `b`", given by lists of needs, over
things that need nothing but one another.

## Main results

* `DependencyOrder.mem_reachable_iff`: the search finds exactly what a thing needs in the end;
* `DependencyOrder.mem_cyclic_iff` and `DependencyOrder.mem_order_iff`: the things are split by
  whether they need themselves in the end;
* `DependencyOrder.nodup_order` and `DependencyOrder.mem_front_or_cyclic`: the order has no
  repetitions, and what a thing of the order needs stands in front of it or lies on a cycle;
* `DependencyOrder.splits_of` and `DependencyOrder.splits_table`: the split as a whole, among things
  of any kind and for every table of needs.
-/

namespace ElementCatalog.DependencyOrder

open Relation

variable {α : Type} {needs : α → List α}

/-- The things need nothing but one another. -/
def IsClosed (needs : α → List α) (things : List α) : Prop :=
  ∀ a ∈ things, ∀ b ∈ needs a, b ∈ things

/-- One thing needs another directly or through others. -/
abbrev NeedsInTheEnd (needs : α → List α) : α → α → Prop :=
  TransGen fun a b => b ∈ needs a

/-! ## Reachability -/

section Reachability

variable [DecidableEq α]

/-- The state of a search among things: what was seen has been expanded, except for the frontier. -/
structure Search (needs : α → List α) (things seen frontier : List α) : Prop where
  /-- Nothing was seen twice. -/
  nodup : seen.Nodup
  /-- Only the things are seen. -/
  within : seen ⊆ things
  /-- The needs of what was seen before the frontier have been seen. -/
  expanded : ∀ a ∈ seen, a ∉ frontier → ∀ b ∈ needs a, b ∈ seen

/-- What was seen stays seen. -/
theorem subset_expand (steps : Nat) (seen frontier : List α) :
    seen ⊆ expand needs steps seen frontier := by
  induction steps generalizing seen frontier with
  | zero => exact List.Subset.refl seen
  | succ steps ih =>
    rw [expand]
    split
    · exact List.Subset.refl seen
    · exact List.Subset.trans (List.subset_append_left seen _) (ih _ _)

/-- A search finds only what can be reached from where it began. -/
theorem of_mem_expand {reached : α → Prop} (step : ∀ a, reached a → ∀ b ∈ needs a, reached b)
    (steps : Nat) {seen frontier : List α} (hseen : ∀ a ∈ seen, reached a)
    (hfrontier : ∀ a ∈ frontier, reached a) :
    ∀ a ∈ expand needs steps seen frontier, reached a := by
  induction steps generalizing seen frontier with
  | zero => exact hseen
  | succ steps ih =>
    rw [expand]
    split
    · exact hseen
    · have hnext : ∀ a ∈ (frontier.flatMap needs).eraseDups.filter (· ∉ seen), reached a := by
        intro a ha
        rw [List.mem_filter, List.mem_eraseDups, List.mem_flatMap] at ha
        obtain ⟨⟨b, hb, hab⟩, -⟩ := ha
        exact step b (hfrontier b hb) a hab
      refine ih (fun a ha => ?_) hnext
      exact (List.mem_append.1 ha).elim (hseen a) (hnext a)

/-- One step of a search keeps its state. -/
theorem Search.step {things seen frontier : List α} (closed : IsClosed needs things)
    (search : Search needs things seen frontier) (hfrontier : frontier ⊆ seen) :
    let next := (frontier.flatMap needs).eraseDups.filter (· ∉ seen)
    Search needs things (seen ++ next) next := by
  intro next
  have mem_next {a : α} : a ∈ next ↔ (∃ b ∈ frontier, a ∈ needs b) ∧ a ∉ seen := by
    simp [next, List.mem_filter, List.mem_eraseDups]
  constructor
  · refine List.nodup_append'.2 ⟨search.nodup, (nodup_eraseDups _).filter _, fun a ha hnext => ?_⟩
    exact (mem_next.1 hnext).2 ha
  · refine List.append_subset.2 ⟨search.within, fun a ha => ?_⟩
    obtain ⟨⟨b, hb, hab⟩, -⟩ := mem_next.1 ha
    exact closed b (search.within (hfrontier hb)) a hab
  · intro a ha hnext b hab
    have hseen : a ∈ seen := (List.mem_append.1 ha).resolve_right hnext
    by_cases hb : b ∈ seen
    · exact List.mem_append_left _ hb
    · by_cases hfront : a ∈ frontier
      · exact List.mem_append_right _ (mem_next.2 ⟨⟨a, hfront, hab⟩, hb⟩)
      · exact absurd (search.expanded a hseen hfront b hab) hb

/-- A search with enough steps ends only when all needs of what was seen have been seen. -/
theorem expand_closed {things : List α} (closed : IsClosed needs things) (steps : Nat)
    {seen frontier : List α} (search : Search needs things seen frontier)
    (hfrontier : frontier ⊆ seen) (room : things.length ≤ seen.length + steps) :
    IsClosed needs (expand needs steps seen frontier) := by
  induction steps generalizing seen frontier with
  | zero =>
    -- As many things were seen as there are, so these are all of them.
    have hall : seen.Perm things :=
      (List.subperm_of_subset search.nodup search.within).perm_of_length_le (by simpa using room)
    intro a ha b hab
    exact hall.mem_iff.2 (closed a (hall.mem_iff.1 ha) b hab)
  | succ steps ih =>
    have hstep := search.step closed hfrontier
    rw [expand]
    split
    · next hnone =>
      simp only [hnone, List.append_nil] at hstep
      exact fun a ha => hstep.expanded a ha List.not_mem_nil
    · next hsome =>
      refine ih hstep (List.subset_append_right _ _) ?_
      have := List.length_pos_of_ne_nil hsome
      rw [List.length_append]
      omega

/-- The search from a thing finds exactly what the thing needs in the end. -/
theorem mem_reachable_iff {things : List α} (closed : IsClosed needs things) {a b : α}
    (ha : a ∈ things) :
    b ∈ reachable needs things.length a ↔ NeedsInTheEnd needs a b := by
  have mem_direct {c : α} : c ∈ (needs a).eraseDups ↔ c ∈ needs a := List.mem_eraseDups
  constructor
  · refine of_mem_expand (fun c hc d hcd => hc.tail hcd) _ ?_ ?_ b
    all_goals exact fun c hc => .single (mem_direct.1 hc)
  · have search : Search needs things (needs a).eraseDups (needs a).eraseDups :=
      ⟨nodup_eraseDups _, fun c hc => closed a ha c (mem_direct.1 hc),
        fun c hc hnot => absurd hc hnot⟩
    have hclosed : IsClosed needs (reachable needs things.length a) :=
      expand_closed closed _ search (List.Subset.refl _) (Nat.le_add_left _ _)
    intro h
    induction h with
    | single hab => exact subset_expand _ _ _ (mem_direct.2 hab)
    | tail _ hbc ih => exact hclosed _ ih _ hbc

end Reachability

/-! ## Visits -/

/-- What a thing needs goes less than the given number of steps deep. -/
def IsShallow (needs : α → List α) : Nat → α → Prop
  | 0, _ => False
  | depth + 1, a => ∀ b ∈ needs a, IsShallow needs depth b

/-- A thing whose needs end does not need itself. -/
theorem IsShallow.not_needsInTheEnd_self {depth : Nat} {a : α} (h : IsShallow needs depth a) :
    ¬ NeedsInTheEnd needs a a := by
  induction depth generalizing a with
  | zero => exact h.elim
  | succ depth ih =>
    intro cycle
    -- The first thing on the cycle lies on it too, and its needs are less deep.
    obtain ⟨b, hab, hba⟩ := TransGen.head'_iff.1 cycle
    exact ih (h b hab) (TransGen.tail' hba hab)

/-- Among things none of which needs itself, needs go less deep than there are things. The things
on the way to a thing are distinct, and the thing is none of them. -/
theorem isShallow_of_acyclic {things : List α} (closed : IsClosed needs things)
    (acyclic : ∀ a ∈ things, ¬ NeedsInTheEnd needs a a) {depth : Nat} {way : List α} {a : α}
    (ha : a ∈ things) (hway : way ⊆ things) (distinct : way.Nodup)
    (leads : ∀ b ∈ way, NeedsInTheEnd needs b a) (room : things.length ≤ way.length + depth) :
    IsShallow needs depth a := by
  have hfresh : a ∉ way := fun h => acyclic a ha (leads a h)
  have longer : (a :: way).Nodup := List.nodup_cons.2 ⟨hfresh, distinct⟩
  have longer_subset : a :: way ⊆ things := List.cons_subset.2 ⟨ha, hway⟩
  induction depth generalizing way a with
  | zero =>
    have := (List.subperm_of_subset longer longer_subset).length_le
    rw [List.length_cons] at this
    omega
  | succ depth ih =>
    intro b hab
    have hb : b ∈ things := closed a ha b hab
    have leads_b : ∀ c ∈ a :: way, NeedsInTheEnd needs c b := by
      intro c hc
      rcases List.mem_cons.1 hc with rfl | hc
      · exact .single hab
      · exact (leads c hc).tail hab
    have hfresh_b : b ∉ a :: way := fun h => acyclic b hb (leads_b b h)
    refine ih hb longer_subset longer leads_b ?_ hfresh_b ?_ ?_
    · rw [List.length_cons]
      omega
    · exact List.nodup_cons.2 ⟨hfresh_b, longer⟩
    · exact List.cons_subset.2 ⟨hb, longer_subset⟩

/-- Things are placed without repetitions and each after all that it needs. -/
structure IsSettled (needs : α → List α) (placed : List α) : Prop where
  /-- Nothing is placed twice. -/
  nodup : placed.Nodup
  /-- The needs of a thing stand in front of it. -/
  needs_before : ∀ {front : List α} {a : α} {back : List α},
    placed = front ++ a :: back → ∀ b ∈ needs a, b ∈ front

/-- Nothing at all is settled. -/
theorem isSettled_nil : IsSettled needs [] :=
  ⟨List.nodup_nil, fun h => by simp at h⟩

/-- A new thing can be placed at the end once its needs are placed. -/
theorem IsSettled.concat {placed : List α} (settled : IsSettled needs placed) {a : α}
    (hnew : a ∉ placed) (hneeds : ∀ b ∈ needs a, b ∈ placed) :
    IsSettled needs (placed ++ [a]) := by
  constructor
  · exact List.nodup_append'.2
      ⟨settled.nodup, List.nodup_singleton a, List.disjoint_singleton.2 hnew⟩
  · intro front c back h
    rcases List.eq_nil_or_concat back with rfl | ⟨back, last, rfl⟩
    · obtain ⟨rfl, hca⟩ := List.append_inj' h rfl
      obtain rfl : a = c := by simpa using hca
      exact hneeds
    · have h' : placed ++ [a] = (front ++ c :: back) ++ [last] := by simpa using h
      exact settled.needs_before (List.append_inj' h' rfl).1

/-- What visits that began with some things placed lead to. -/
structure Visited (needs : α → List α) (placed : List α) (targets : List α) (after : List α) :
    Prop where
  /-- Everything placed is settled. -/
  settled : IsSettled needs after
  /-- What was placed stays placed. -/
  extends_placed : placed ⊆ after
  /-- The targets are placed. -/
  targets_placed : targets ⊆ after
  /-- Only the targets and what they need are placed in addition. -/
  only_needed : ∀ a ∈ after,
    a ∈ placed ∨ ∃ target ∈ targets, target = a ∨ NeedsInTheEnd needs target a

/-- One visit after another visits all targets. -/
theorem visited_foldl (go : List α → α → List α) {targets placed : List α}
    (hgo : ∀ target ∈ targets, ∀ placed, IsSettled needs placed →
      Visited needs placed [target] (go placed target))
    (settled : IsSettled needs placed) :
    Visited needs placed targets (targets.foldl go placed) := by
  induction targets generalizing placed with
  | nil =>
    exact ⟨settled, List.Subset.refl _, List.nil_subset _, fun a ha => .inl ha⟩
  | cons target rest ih =>
    have first := hgo target List.mem_cons_self placed settled
    have others := ih (fun t ht => hgo t (List.mem_cons_of_mem _ ht)) first.settled
    refine ⟨others.settled, List.Subset.trans first.extends_placed others.extends_placed, ?_, ?_⟩
    · refine List.cons_subset.2 ⟨others.extends_placed ?_, others.targets_placed⟩
      exact first.targets_placed List.mem_cons_self
    · intro a ha
      rcases others.only_needed a ha with hfirst | ⟨t, ht, hta⟩
      · rcases first.only_needed a hfirst with h | ⟨t, ht, hta⟩
        · exact .inl h
        · exact .inr ⟨t, List.mem_cons.2 (.inl (List.mem_singleton.1 ht)), hta⟩
      · exact .inr ⟨t, List.mem_cons_of_mem _ ht, hta⟩

/-- A visit that can go deep enough places its thing after all that it needs. -/
theorem visited_visit [DecidableEq α] {depth : Nat} {placed : List α} {a : α}
    (shallow : IsShallow needs depth a) (settled : IsSettled needs placed) :
    Visited needs placed [a] (visit needs depth placed a) := by
  induction depth generalizing placed a with
  | zero => exact shallow.elim
  | succ depth ih =>
    rw [visit]
    split
    · next hplaced =>
      exact ⟨settled, List.Subset.refl _, by simpa using hplaced, fun b hb => .inl hb⟩
    · next hnew =>
      have inner := visited_foldl (visit needs depth)
        (fun b hb placed hplaced => ih (shallow b hb) hplaced) settled
      -- The visits of the needs cannot have placed the thing, which would then need itself.
      have hfresh : a ∉ (needs a).foldl (visit needs depth) placed := by
        intro h
        rcases inner.only_needed a h with h | ⟨b, hb, rfl | h⟩
        · exact hnew h
        · exact shallow.not_needsInTheEnd_self (.single hb)
        · exact shallow.not_needsInTheEnd_self (.head hb h)
      refine ⟨inner.settled.concat hfresh inner.targets_placed, ?_, by simp, ?_⟩
      · exact List.Subset.trans inner.extends_placed (List.subset_append_left _ _)
      · intro b hb
        rcases List.mem_append.1 hb with hb | hb
        · rcases inner.only_needed b hb with h | ⟨c, hc, h⟩
          · exact .inl h
          · refine .inr ⟨a, List.mem_singleton_self a, .inr ?_⟩
            exact h.elim (fun h => h ▸ .single hc) (.head hc)
        · exact .inr ⟨a, List.mem_singleton_self a, .inl (List.mem_singleton.1 hb).symm⟩

/-! ## The split and the order -/

section Order

variable [DecidableEq α] {things : List α}

/-- On cycles lie the things that need themselves in the end. -/
theorem mem_cyclic_iff (closed : IsClosed needs things) {a : α} :
    a ∈ (of needs things).cyclic ↔ a ∈ things ∧ NeedsInTheEnd needs a a := by
  simp only [of, List.mem_filter, decide_eq_true_eq]
  exact and_congr_right fun ha => mem_reachable_iff closed ha

/-- The needs of a thing that do not lie on cycles. -/
def acyclicNeeds (needs : α → List α) (things : List α) (a : α) : List α :=
  (needs a).filter (· ∈ things.filter (· ∉ (of needs things).cyclic))

/-- What all visits together lead to. -/
theorem visited_order (closed : IsClosed needs things) :
    Visited (acyclicNeeds needs things) [] (things.filter (· ∉ (of needs things).cyclic))
      (of needs things).order := by
  have acyclic_closed : IsClosed (acyclicNeeds needs things)
      (things.filter (· ∉ (of needs things).cyclic)) := by
    intro a _ b hb
    simpa using (List.mem_filter.1 hb).2
  refine visited_foldl _ (fun a ha placed => ?_) isSettled_nil
  refine visited_visit (isShallow_of_acyclic acyclic_closed ?_ ha (List.nil_subset _)
    List.nodup_nil (fun b hb => absurd hb List.not_mem_nil) (Nat.le_add_left _ _))
  intro b hb cycle
  rw [List.mem_filter, decide_eq_true_eq, mem_cyclic_iff closed] at hb
  exact hb.2 ⟨hb.1, cycle.lift id fun c d hcd => (List.mem_filter.1 hcd).1⟩

/-- The order has all things that do not lie on cycles. -/
theorem mem_order_iff (closed : IsClosed needs things) {a : α} :
    a ∈ (of needs things).order ↔ a ∈ things ∧ ¬ NeedsInTheEnd needs a a := by
  have mem_acyclic {b : α} : b ∈ things.filter (· ∉ (of needs things).cyclic) ↔
      b ∈ things ∧ ¬ NeedsInTheEnd needs b b := by
    simp only [List.mem_filter, decide_eq_true_eq, mem_cyclic_iff closed]
    tauto
  have visited := visited_order closed
  rw [← mem_acyclic]
  constructor
  · intro ha
    rcases visited.only_needed a ha with h | ⟨target, htarget, rfl | h⟩
    · exact absurd h List.not_mem_nil
    · exact htarget
    · refine TransGen.head_induction_on h (fun h => ?_) (fun _ _ ih => ih)
      simpa using (List.mem_filter.1 h).2
  · exact fun ha => visited.targets_placed ha

/-- Nothing stands in the order twice. -/
theorem nodup_order (closed : IsClosed needs things) : (of needs things).order.Nodup :=
  (visited_order closed).settled.nodup

/-- What a thing of the order needs stands in front of it or lies on a cycle. -/
theorem mem_front_or_cyclic (closed : IsClosed needs things) {front back : List α} {a b : α}
    (horder : (of needs things).order = front ++ a :: back) (hab : b ∈ needs a) :
    b ∈ front ∨ b ∈ (of needs things).cyclic := by
  by_cases hcyclic : b ∈ (of needs things).cyclic
  · exact .inr hcyclic
  · have horder_mem : a ∈ (of needs things).order := by
      rw [horder]
      exact List.mem_append_right _ List.mem_cons_self
    have ha : a ∈ things := ((mem_order_iff closed).1 horder_mem).1
    have hb : b ∈ things.filter (· ∉ (of needs things).cyclic) := by
      simpa [hcyclic] using closed a ha b hab
    -- The order is settled for the needs that do not lie on cycles, of which this is one.
    refine .inl ((visited_order closed).settled.needs_before horder b ?_)
    simpa [acyclicNeeds, hab] using hb

end Order

/-! ## The split as a whole -/

/-- Things are split by whether they need themselves in the end, and the order has needs first. -/
structure Splits (needs : α → List α) (things : List α) (split : DependencyOrder α) : Prop where
  /-- No thing is lost, and none comes twice. -/
  perm : (split.order ++ split.cyclic).Perm things
  /-- Apart stand exactly the things that a chain of needs leads back to. -/
  mem_cyclic_iff : ∀ a, a ∈ split.cyclic ↔ a ∈ things ∧ NeedsInTheEnd needs a a
  /-- The things apart keep the order in which they were given. -/
  cyclic_sublist : split.cyclic.Sublist things
  /-- What a thing of the order needs stands in front of it, if it stands in the order at all. -/
  needs_first : ∀ (front : List α) (a : α) (back : List α), split.order = front ++ a :: back →
    ∀ b ∈ needs a, b ∈ split.order → b ∈ front

/-- Distinct things that need nothing but one another are split rightly. -/
theorem splits_of [DecidableEq α] {things : List α} (closed : IsClosed needs things)
    (distinct : things.Nodup) : Splits needs things (of needs things) := by
  have cyclic_sublist : (of needs things).cyclic.Sublist things := List.filter_sublist
  constructor
  · have apart : List.Disjoint (of needs things).order (of needs things).cyclic := by
      intro a horder hcyclic
      exact ((mem_order_iff closed).1 horder).2 ((mem_cyclic_iff closed).1 hcyclic).2
    have once : ((of needs things).order ++ (of needs things).cyclic).Nodup :=
      List.nodup_append'.2 ⟨nodup_order closed, distinct.sublist cyclic_sublist, apart⟩
    refine (List.perm_ext_iff_of_nodup once distinct).2 fun a => ?_
    rw [List.mem_append, mem_order_iff closed, mem_cyclic_iff closed]
    tauto
  · exact fun a => mem_cyclic_iff closed
  · exact cyclic_sublist
  · intro front a back horder b hab hb
    have hnot : b ∉ (of needs things).cyclic := fun hcyclic =>
      ((mem_order_iff closed).1 hb).2 ((mem_cyclic_iff closed).1 hcyclic).2
    exact (mem_front_or_cyclic closed horder hab).resolve_right hnot

/-- What a slot needs according to a table, which lists the needs of one slot after another. -/
def needsIn (table : List (List Nat)) (slot : Nat) : List Nat :=
  table[slot]?.getD []

/-- The slots of a table that names no other slots need nothing but one another. -/
theorem isClosed_needsIn {table : List (List Nat)}
    (within : ∀ needed ∈ table, ∀ slot ∈ needed, slot < table.length) :
    IsClosed (needsIn table) (List.range table.length) := by
  intro slot hslot other hother
  rw [List.mem_range] at hslot ⊢
  rw [needsIn, List.getElem?_eq_getElem hslot, Option.getD_some] at hother
  exact within _ (List.getElem_mem hslot) other hother

/-- For every table of needs among slots the slots are split rightly, and those on cycles come in
ascending order. -/
theorem splits_table (table : List (List Nat))
    (within : ∀ needed ∈ table, ∀ slot ∈ needed, slot < table.length) :
    Splits (needsIn table) (List.range table.length)
        (of (needsIn table) (List.range table.length)) ∧
      (of (needsIn table) (List.range table.length)).cyclic.Pairwise (· < ·) := by
  have splits := splits_of (isClosed_needsIn within) List.nodup_range
  exact ⟨splits, List.pairwise_lt_range.sublist splits.cyclic_sublist⟩

/-- Slots 1 and 2 need each other, and slot 4 needs itself. Slot 0 needs a slot on a cycle and
slot 3, which comes first. -/
theorem splits_table_tails :
    (∀ needed ∈ [[1, 3], [2, 2], [1, 3], [], [0, 4]], ∀ slot ∈ needed, slot < 5) ∧
      Splits (needsIn [[1, 3], [2, 2], [1, 3], [], [0, 4]]) [0, 1, 2, 3, 4]
        ⟨[3, 0], [1, 2, 4]⟩ := by
  have within : ∀ needed ∈ [[1, 3], [2, 2], [1, 3], [], [0, 4]], ∀ slot ∈ needed, slot < 5 := by
    decide
  exact ⟨within, (splits_table [[1, 3], [2, 2], [1, 3], [], [0, 4]] within).1⟩

end ElementCatalog.DependencyOrder
