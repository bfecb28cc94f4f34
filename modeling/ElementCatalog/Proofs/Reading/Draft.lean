import ElementCatalog.Proofs.Json.Draft
import ElementCatalog.Reading.Draft

/-!
# Reading a written tree

A reader makes of a written text what it makes of the tree (`Json.Document.read_pretty`). A tree
reads back from its text exactly if its containers stand no deeper in one another than a reader goes
(`Json.Document.read_tree`). What is deeper is refused as malformed. What readers of lists and
dictionaries make of single parts they make of all parts that are written (`Json.Draft.items_toDraft`,
`Json.Draft.members_toDraft`).
-/

namespace ElementCatalog.Json

mutual

/-- How many containers stand in one another in a document. -/
def depth : Json → Nat
  | list items => itemDepth items + 1
  | object members => memberDepth members + 1
  | null | bool _ | number _ | string _ => 0

/-- How many containers stand in one another in items. -/
def itemDepth : List Json → Nat
  | [] => 0
  | item :: rest => max (depth item) (itemDepth rest)

/-- How many containers stand in one another in members. -/
def memberDepth : List (String × Json) → Nat
  | [] => 0
  | (_, value) :: rest => max (depth value) (memberDepth rest)

end

/-- Items go no deeper than a bound if none of them does. -/
theorem itemDepth_le_iff {items : List Json} {bound : Nat} :
    itemDepth items ≤ bound ↔ ∀ item ∈ items, item.depth ≤ bound := by
  induction items with
  | nil => simp [itemDepth]
  | cons item rest ih => simp [itemDepth, ih]

/-- Members go no deeper than a bound if none of their values does. -/
theorem memberDepth_le_iff {members : List (String × Json)} {bound : Nat} :
    memberDepth members ≤ bound ↔ ∀ member ∈ members, member.2.depth ≤ bound := by
  induction members with
  | nil => simp [memberDepth]
  | cons member rest ih => simp [memberDepth, ih]

namespace Draft

mutual

/-- The draft of a tree becomes the tree, where there is room for it. -/
theorem settle_toDraft (room : Nat) : ∀ tree : Json,
    settle room tree.toDraft = if tree.depth ≤ room then .ok tree else .error .malformed
  | .null | .bool _ | .number _ | .string _ => rfl
  | .list items => by
    cases room with
    | zero => rfl
    | succ room =>
      -- One place less is left inside the list.
      have hitems := settleItems_itemDrafts room items
      simp only [toDraft, settle, hitems, depth, Nat.add_le_add_iff_right]
      split <;> rfl
  | .object members => by
    cases room with
    | zero => rfl
    | succ room =>
      have hmembers := settleMembers_memberDrafts room members
      simp only [toDraft, settle, hmembers, depth, Nat.add_le_add_iff_right]
      split <;> rfl

/-- The drafts of items become the items, where there is room for all of them. -/
theorem settleItems_itemDrafts (room : Nat) : ∀ items : List Json,
    settleItems room (itemDrafts items) =
      if itemDepth items ≤ room then .ok items else .error .malformed
  | [] => rfl
  | item :: rest => by
    simp only [itemDrafts, settleItems, settle_toDraft room item, settleItems_itemDrafts room rest,
      itemDepth, max_le_iff]
    by_cases hitem : item.depth ≤ room <;> by_cases hrest : itemDepth rest ≤ room <;>
      simp only [hitem, hrest, and_true, and_false, if_true, if_false] <;> rfl

/-- The drafts of members become the members, where there is room for all of them. -/
theorem settleMembers_memberDrafts (room : Nat) : ∀ members : List (String × Json),
    settleMembers room (memberDrafts members) =
      if memberDepth members ≤ room then .ok members else .error .malformed
  | [] => rfl
  | (key, value) :: rest => by
    simp only [memberDrafts, settleMembers, settle_toDraft room value,
      settleMembers_memberDrafts room rest, memberDepth, max_le_iff]
    by_cases hvalue : value.depth ≤ room <;> by_cases hrest : memberDepth rest ≤ room <;>
      simp only [hvalue, hrest, and_true, and_false, if_true, if_false] <;> rfl

end

/-! ## Written items and members -/

variable {α β : Type} {read : Nat → Draft → Read β} {write : α → Json} {make : α → β} {room : Nat}

/-- Items that are read one by one are read from the list that is written for them. -/
theorem items_toDraft {items : List α}
    (h : ∀ item ∈ items, read room (write item).toDraft = .ok (make item)) :
    Draft.items read (room + 1) (Json.list (items.map write)).toDraft = .ok (items.map make) := by
  have hitems : (itemDrafts (items.map write)).mapM (read room) = .ok (items.map make) := by
    induction items with
    | nil => rfl
    | cons item rest ih =>
      obtain ⟨hitem, hrest⟩ := List.forall_mem_cons.1 h
      rw [List.map_cons, itemDrafts, List.mapM_cons, hitem, ih hrest]
      rfl
  show (itemDrafts (items.map write)).mapM (read room) >>= _ = _
  rw [hitems]
  rfl

/-- Members whose values are read one by one are read from the object that is written for them. -/
theorem members_toDraft {members : List (String × α)}
    (h : ∀ member ∈ members, read room (write member.2).toDraft = .ok (make member.2)) :
    Draft.members read (room + 1)
        (Json.object (members.map fun member => (member.1, write member.2))).toDraft =
      .ok (members.map fun member => (member.1, make member.2)) := by
  let readMember (member : Key × Draft) : Read (String × β) := do
    let key ← Read.ofText member.1
    return (key, ← read room member.2)
  have hmembers : (memberDrafts (members.map fun member => (member.1, write member.2))).mapM
      readMember = .ok (members.map fun member => (member.1, make member.2)) := by
    induction members with
    | nil => rfl
    | cons member rest ih =>
      obtain ⟨hmember, hrest⟩ := List.forall_mem_cons.1 h
      have hread : readMember (.ok member.1, (write member.2).toDraft) =
          .ok (member.1, make member.2) := by
        show (do return (member.1, ← read room (write member.2).toDraft)) = _
        rw [hmember]
        rfl
      rw [List.map_cons, memberDrafts, List.mapM_cons, hread, ih hrest]
      rfl
  show (memberDrafts (members.map fun member => (member.1, write member.2))).mapM readMember >>= _
    = _
  rw [hmembers]
  rfl

end Draft

/-- A reader makes of the text of a tree what it makes of the tree, in every layout that puts nothing
but blanks between the tokens. -/
theorem Document.read_render {α : Type} (reader : Nat → Draft → Read α) {layout : Layout}
    (hlayout : layout.IsBlank) (tree : Json) :
    Document.read reader (String.ofList (tree.render layout 0)) =
      reader depthLimit tree.toDraft := by
  rw [Document.read, Document.ofText_render hlayout]
  cases reader depthLimit tree.toDraft with
  | error error => rfl
  | ok value => rfl

/-- A reader makes of the text of a tree on indented lines what it makes of the tree. -/
theorem Document.read_pretty {α : Type} (reader : Nat → Draft → Read α) (tree : Json) :
    Document.read reader tree.pretty = reader depthLimit tree.toDraft :=
  read_render reader Layout.isBlank_pretty tree

/-- A tree reads back from its text in a layout that puts nothing but blanks between the tokens, if
its containers do not stand too deep in one another. What is made of trees is made of this one. -/
theorem Document.read_tree {α : Type} (make : Json → α) {layout : Layout} (hlayout : layout.IsBlank)
    (tree : Json) :
    Document.read (fun room draft => make <$> draft.tree room)
        (String.ofList (tree.render layout 0)) =
      if tree.depth ≤ depthLimit then .ok (make tree) else .error (.text .malformed) := by
  rw [Document.read_render _ hlayout]
  simp only [Draft.tree, Draft.settle_toDraft]
  split <;> rfl

end ElementCatalog.Json
