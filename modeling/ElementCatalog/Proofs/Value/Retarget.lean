import ElementCatalog.Proofs.Value.MapReferences

/-!
# Values with other targets

`Value.retarget` gives each reference in a value another target, which can depend on where the
reference stands, and leaves all else as it is, snapshots included. Replacing one reference is a
case of it (`Value.Replaced.eq_retarget`). Where the target depends only on the old one, each
reference is changed by itself (`Value.retarget_eq_mapReferences`).
-/

namespace ElementCatalog

/-- The reference with its target moved. -/
def Reference.mapTarget (move : ElementId → ElementId) (reference : Reference) : Reference :=
  { reference with target := move reference.target }

namespace Value

mutual

/-- The value with the target of each reference moved. -/
def retarget (move : List PathSegment → ElementId → ElementId) : Value → Value
  | reference target snapshot => reference (move [] target) snapshot
  | list items => list (retargetItems move 0 items)
  | map members => map (retargetMembers move members)
  | null => null
  | bool value => bool value
  | number value => number value
  | string value => string value

/-- Items, the first of which has the given position, with the targets of references moved. -/
def retargetItems (move : List PathSegment → ElementId → ElementId) (position : Nat) :
    List Value → List Value
  | [] => []
  | item :: rest =>
    item.retarget (fun path => move (.index position :: path)) ::
      retargetItems move (position + 1) rest

/-- Members with the targets of references moved. -/
def retargetMembers (move : List PathSegment → ElementId → ElementId) :
    List (String × Value) → List (String × Value)
  | [] => []
  | (name, value) :: rest =>
    (name, value.retarget fun path => move (.key name :: path)) :: retargetMembers move rest

end

/-! ## Moves that agree -/

mutual

/-- The value depends only on how the targets of its own references are moved. -/
theorem retarget_congr {move move' : List PathSegment → ElementId → ElementId} :
    ∀ {value : Value}, (∀ placed ∈ value.references,
      move placed.1 placed.2.target = move' placed.1 placed.2.target) →
      value.retarget move = value.retarget move'
  | .reference target snapshot, h => by
    rw [retarget, retarget, h ([], ⟨target, snapshot⟩) (List.mem_singleton_self _)]
  | .list items, h => by rw [retarget, retarget, retargetItems_congr h]
  | .map members, h => by rw [retarget, retarget, retargetMembers_congr h]
  | .null, _ | .bool _, _ | .number _, _ | .string _, _ => by simp only [retarget]

/-- Items depend only on how the targets of their own references are moved. -/
theorem retargetItems_congr {move move' : List PathSegment → ElementId → ElementId} :
    ∀ {items : List Value} {position : Nat}, (∀ placed ∈ itemReferences position items,
      move placed.1 placed.2.target = move' placed.1 placed.2.target) →
      retargetItems move position items = retargetItems move' position items
  | [], _, _ => rfl
  | item :: rest, position, h => by
    rw [itemReferences] at h
    have hitem : item.retarget (fun path => move (.index position :: path)) =
        item.retarget fun path => move' (.index position :: path) :=
      retarget_congr fun placed hplaced => h (.index position :: placed.1, placed.2)
        (List.mem_append_left _ (PlacedReference.mem_below_iff.2 ⟨placed.1, rfl, hplaced⟩))
    have hrest := retargetItems_congr fun placed hplaced =>
      h placed (List.mem_append_right _ hplaced)
    rw [retargetItems, retargetItems, hitem, hrest]

/-- Members depend only on how the targets of their own references are moved. -/
theorem retargetMembers_congr {move move' : List PathSegment → ElementId → ElementId} :
    ∀ {members : List (String × Value)}, (∀ placed ∈ memberReferences members,
      move placed.1 placed.2.target = move' placed.1 placed.2.target) →
      retargetMembers move members = retargetMembers move' members
  | [], _ => rfl
  | (name, value) :: rest, h => by
    rw [memberReferences] at h
    have hvalue : value.retarget (fun path => move (.key name :: path)) =
        value.retarget fun path => move' (.key name :: path) :=
      retarget_congr fun placed hplaced => h (.key name :: placed.1, placed.2)
        (List.mem_append_left _ (PlacedReference.mem_below_iff.2 ⟨placed.1, rfl, hplaced⟩))
    have hrest := retargetMembers_congr fun placed hplaced =>
      h placed (List.mem_append_right _ hplaced)
    rw [retargetMembers, retargetMembers, hvalue, hrest]

end

mutual

/-- Nothing changes where all targets stay. -/
theorem retarget_id : ∀ value : Value, (value.retarget fun _ target => target) = value
  | .reference _ _ | .null | .bool _ | .number _ | .string _ => by simp only [retarget]
  | .list items => by rw [retarget, retargetItems_id]
  | .map members => by rw [retarget, retargetMembers_id]

/-- No item changes where all targets stay. -/
theorem retargetItems_id : ∀ (position : Nat) (items : List Value),
    retargetItems (fun _ target => target) position items = items
  | _, [] => rfl
  | position, item :: rest => by rw [retargetItems, retarget_id, retargetItems_id]

/-- No member changes where all targets stay. -/
theorem retargetMembers_id : ∀ members : List (String × Value),
    retargetMembers (fun _ target => target) members = members
  | [] => rfl
  | (name, value) :: rest => by rw [retargetMembers, retarget_id, retargetMembers_id]

end

variable {move : List PathSegment → ElementId → ElementId}

/-- A value stays as it is if the targets of its references do. -/
theorem retarget_eq_self {value : Value}
    (h : ∀ placed ∈ value.references, move placed.1 placed.2.target = placed.2.target) :
    value.retarget move = value :=
  (retarget_congr h).trans (retarget_id value)

/-- Members stay as they are if the targets of their references do. -/
theorem retargetMembers_eq_self {members : List (String × Value)}
    (h : ∀ placed ∈ memberReferences members, move placed.1 placed.2.target = placed.2.target) :
    retargetMembers move members = members :=
  (retargetMembers_congr h).trans (retargetMembers_id members)

/-- Items stay as they are if the targets of their references do. -/
theorem retargetItems_eq_self {items : List Value} {position : Nat}
    (h : ∀ placed ∈ itemReferences position items, move placed.1 placed.2.target = placed.2.target) :
    retargetItems move position items = items :=
  (retargetItems_congr h).trans (retargetItems_id position items)

/-! ## One move after another -/

mutual

/-- Targets are moved twice by moving them once by both moves. -/
theorem retarget_retarget : ∀ (value : Value)
    (first second : List PathSegment → ElementId → ElementId),
    (value.retarget first).retarget second =
      value.retarget fun path target => second path (first path target)
  | .reference _ _, _, _ | .null, _, _ | .bool _, _, _ | .number _, _, _ | .string _, _, _ => by
    simp only [retarget]
  | .list items, first, second => by
    rw [retarget, retarget, retarget, retargetItems_retargetItems]
  | .map members, first, second => by
    rw [retarget, retarget, retarget, retargetMembers_retargetMembers]

/-- Targets in items are moved twice by moving them once by both moves. -/
theorem retargetItems_retargetItems : ∀ (items : List Value) (position : Nat)
    (first second : List PathSegment → ElementId → ElementId),
    retargetItems second position (retargetItems first position items) =
      retargetItems (fun path target => second path (first path target)) position items
  | [], _, _, _ => rfl
  | item :: rest, position, first, second => by
    rw [retargetItems, retargetItems, retargetItems, retarget_retarget,
      retargetItems_retargetItems]

/-- Targets in members are moved twice by moving them once by both moves. -/
theorem retargetMembers_retargetMembers : ∀ (members : List (String × Value))
    (first second : List PathSegment → ElementId → ElementId),
    retargetMembers second (retargetMembers first members) =
      retargetMembers (fun path target => second path (first path target)) members
  | [], _, _ => rfl
  | (name, value) :: rest, first, second => by
    rw [retargetMembers, retargetMembers, retargetMembers, retarget_retarget,
      retargetMembers_retargetMembers]

end

/-! ## One reference -/

/-- The targets in members are moved one after another. -/
theorem retargetMembers_append (front back : List (String × Value)) :
    retargetMembers move (front ++ back) =
      retargetMembers move front ++ retargetMembers move back := by
  induction front with
  | nil => simp [retargetMembers]
  | cons member rest ih => simp only [List.cons_append, retargetMembers, ih]

/-- The targets in items are moved one after another. -/
theorem retargetItems_append (position : Nat) (front back : List Value) :
    retargetItems move position (front ++ back) =
      retargetItems move position front ++
        retargetItems move (position + front.length) back := by
  induction front generalizing position with
  | nil => simp [retargetItems]
  | cons item rest ih =>
    simp only [List.cons_append, retargetItems, ih, List.length_cons, Nat.add_assoc,
      Nat.add_comm 1]

/-- The targets with the one at a place replaced. -/
def moveAt (place : List PathSegment) (moved : ElementId) (path : List PathSegment)
    (target : ElementId) : ElementId :=
  if path = place then moved else target

/-- Below the first step towards a place, the place is the rest of the path. -/
theorem moveAt_cons (segment : PathSegment) (place : List PathSegment) (moved : ElementId) :
    (fun path => moveAt (segment :: place) moved (segment :: path)) = moveAt place moved := by
  funext path target
  simp [moveAt]

/-- A value in which a reference at a place is replaced by one with another target is the value with
this target moved. -/
theorem Replaced.eq_retarget {value part new after : Value} {path : List PathSegment}
    (replaced : Replaced value path part new after) {target moved : ElementId}
    {snapshot : Option Value} (hpart : part = .reference target snapshot)
    (hnew : new = .reference moved snapshot) (wellFormed : value.WellFormed) :
    after = value.retarget (moveAt path moved) := by
  induction replaced with
  | here =>
    subst hpart hnew
    simp [retarget, moveAt]
  | @key front back name value part new after rest first inner ih =>
    cases wellFormed with
    | map distinct held =>
      have hinner := ih hpart hnew (held (name, value) (by simp))
      -- No other member has the key, so the references of others stay.
      have hother {members : List (String × Value)} (hkey : name ∉ Keyed.keys members) :
          retargetMembers (moveAt (.key name :: rest) moved) members = members := by
        refine retargetMembers_eq_self fun placed hplaced => if_neg fun heq => hkey ?_
        have hbegins : PathSegment.key name :: [] <+: placed.1 := by
          rw [heq]
          exact List.prefix_append [PathSegment.key name] rest
        exact name_of_mem_memberReferences hplaced hbegins
      have hback : name ∉ Keyed.keys back := by
        rw [Keyed.keys, List.map_append, List.map_cons, List.nodup_append',
          List.nodup_cons] at distinct
        exact distinct.2.1.1
      rw [retarget, retargetMembers_append, retargetMembers, hother first, hother hback, hinner,
        moveAt_cons]
  | @index front back item part new after rest inner ih =>
    cases wellFormed with
    | list held =>
      have hinner := ih hpart hnew (held item (by simp))
      -- Other items have other positions, so their references stay.
      have hother {items : List Value} {start : Nat}
          (hposition : front.length < start ∨ start + items.length ≤ front.length) :
          retargetItems (moveAt (.index front.length :: rest) moved) start items = items := by
        refine retargetItems_eq_self fun placed hplaced => if_neg fun heq => ?_
        have hbegins : PathSegment.index front.length :: [] <+: placed.1 := by
          rw [heq]
          exact List.prefix_append [PathSegment.index front.length] rest
        have := position_of_mem_itemReferences hplaced hbegins
        omega
      rw [retarget, retargetItems_append, retargetItems, hother (.inr (by omega)),
        hother (.inl (by omega)), hinner, Nat.zero_add, moveAt_cons]

/-! ## Moves that do not depend on the place -/

mutual

/-- Where a target depends only on the old one, each reference is changed by itself. -/
theorem retarget_eq_mapReferences (move : ElementId → ElementId) : ∀ value : Value,
    (value.retarget fun _ => move) = value.mapReferences (Reference.mapTarget move)
  | .reference _ _ | .null | .bool _ | .number _ | .string _ => rfl
  | .list items => by rw [retarget, retargetItems_eq_mapItemReferences, mapReferences]
  | .map members => by rw [retarget, retargetMembers_eq_mapMemberReferences, mapReferences]

/-- Where a target depends only on the old one, each reference of items is changed by itself. -/
theorem retargetItems_eq_mapItemReferences (move : ElementId → ElementId) :
    ∀ (position : Nat) (items : List Value), retargetItems (fun _ => move) position items =
      mapItemReferences (Reference.mapTarget move) items
  | _, [] => rfl
  | position, item :: rest => by
    rw [retargetItems, retarget_eq_mapReferences, retargetItems_eq_mapItemReferences,
      mapItemReferences]

/-- Where a target depends only on the old one, each reference of members is changed by itself. -/
theorem retargetMembers_eq_mapMemberReferences (move : ElementId → ElementId) :
    ∀ members : List (String × Value), retargetMembers (fun _ => move) members =
      mapMemberReferences (Reference.mapTarget move) members
  | [] => rfl
  | (name, value) :: rest => by
    rw [retargetMembers, retarget_eq_mapReferences, retargetMembers_eq_mapMemberReferences,
      mapMemberReferences]

end

end Value

end ElementCatalog
