import ElementCatalog.Proofs.Reading.Record

/-!
# Reading what is written with a tag

The content that is taken from a draft beside its tag goes no deeper than there was room
(`Variants.depth_le_of_ofDraft`), and the one taken from a finished tree goes no deeper than the tree
(`Variants.depth_le_of_ofJson`). From an object in which the tag comes first, it is the object
without the tag (`Variants.ofDraft_toDraft`).
-/

namespace ElementCatalog.Variants

open Json (Draft)

variable {τ : Type} {variants : Variants τ} {room : Nat}

/-- The members that are kept beside a tag go no deeper than there was room. -/
theorem memberDepth_le_of_scanMembers {ending : Json.Ending} {found : Option τ}
    {members : List (Json.Key × Draft)} {result : Option τ × List (String × Json)}
    (h : variants.scanMembers room ending found members = .ok result) :
    Json.memberDepth result.2 ≤ room := by
  -- Members with the tag are not kept, and each of the others is read with the room there is.
  induction members generalizing found result with
  | nil =>
    obtain ⟨-, -, h⟩ := exists_of_bind_eq_ok h
    obtain rfl := Except.ok.inj h
    exact Nat.zero_le room
  | cons member rest ih =>
    obtain ⟨key, -, h⟩ := exists_of_bind_eq_ok h
    split at h
    · split at h
      · cases h
      · obtain ⟨name, -, h⟩ := exists_of_bind_eq_ok h
        obtain ⟨variant, -, h⟩ := exists_of_bind_eq_ok h
        exact ih h
    · obtain ⟨value, hvalue, h⟩ := exists_of_bind_eq_ok h
      obtain ⟨others, hothers, h⟩ := exists_of_bind_eq_ok h
      obtain rfl := Except.ok.inj h
      exact max_le (Draft.depth_le_of_tree hvalue) (ih hothers)

/-- The content of a draft goes no deeper than there was room. -/
theorem depth_le_of_ofDraft {draft : Draft} {variant : τ} {content : Json}
    (h : variants.ofDraft room draft = .ok (variant, content)) : content.depth ≤ room := by
  cases draft with
  | object members ending =>
    obtain ⟨inside, hinside, hread⟩ := exists_of_bind_eq_ok h
    obtain rfl := Draft.roomInside_eq_ok_iff.1 hinside
    obtain ⟨⟨found, kept⟩, hkept, hread⟩ := exists_of_bind_eq_ok hread
    cases found with
    | none => cases hread
    | some found =>
      obtain ⟨-, rfl⟩ := Prod.mk.inj (Except.ok.inj hread)
      exact Nat.succ_le_succ (memberDepth_le_of_scanMembers hkept)
  | list items ending =>
    obtain ⟨inside, hinside, hread⟩ := exists_of_bind_eq_ok h
    obtain rfl := Draft.roomInside_eq_ok_iff.1 hinside
    cases items with
    | nil =>
      obtain ⟨-, -, hread⟩ := exists_of_bind_eq_ok hread
      cases hread
    | cons tag rest =>
      obtain ⟨name, -, hread⟩ := exists_of_bind_eq_ok hread
      obtain ⟨found, -, hread⟩ := exists_of_bind_eq_ok hread
      obtain ⟨others, hothers, hread⟩ := exists_of_bind_eq_ok hread
      obtain ⟨-, -, hread⟩ := exists_of_bind_eq_ok hread
      obtain ⟨-, rfl⟩ := Prod.mk.inj (Except.ok.inj hread)
      refine Nat.succ_le_succ (Json.itemDepth_le_iff.2 fun item hitem => ?_)
      obtain ⟨part, -, hpart⟩ := exists_of_mem_mapM hothers hitem
      exact Draft.depth_le_of_tree hpart
  | atom held => cases h

/-- The members that are kept beside a tag in a finished object are among its members. -/
theorem mem_of_splitMembers {found : Option τ} {members : List (String × Json)}
    {result : Option τ × List (String × Json)}
    (h : variants.splitMembers found members = .ok result) : result.2 ⊆ members := by
  induction members generalizing found result with
  | nil =>
    obtain rfl := Except.ok.inj h
    exact List.Subset.refl _
  | cons member rest ih =>
    rw [splitMembers] at h
    split at h
    · split at h
      · cases h
      · obtain ⟨variant, -, h⟩ := exists_of_bind_eq_ok h
        exact List.subset_cons_of_subset _ (ih h)
    · obtain ⟨others, hothers, h⟩ := exists_of_bind_eq_ok h
      obtain rfl := Except.ok.inj h
      exact List.cons_subset_cons _ (ih hothers)

/-- The content of a finished tree goes no deeper than the tree. -/
theorem depth_le_of_ofJson {tree content : Json} {variant : τ}
    (h : variants.ofJson tree = .ok (variant, content)) : content.depth ≤ tree.depth := by
  cases tree with
  | object members =>
    obtain ⟨⟨found, kept⟩, hkept, h⟩ := exists_of_bind_eq_ok h
    cases found with
    | none => cases h
    | some found =>
      obtain ⟨-, rfl⟩ := Prod.mk.inj (Except.ok.inj h)
      have hmembers := Json.memberDepth_le_iff.1 (Nat.le_refl (Json.memberDepth members))
      exact Nat.succ_le_succ (Json.memberDepth_le_iff.2 fun member hmember =>
        hmembers member (mem_of_splitMembers hkept hmember))
  | list items =>
    cases items with
    | nil => cases h
    | cons tag rest =>
      obtain ⟨found, -, h⟩ := exists_of_bind_eq_ok h
      obtain ⟨-, rfl⟩ := Prod.mk.inj (Except.ok.inj h)
      exact Nat.succ_le_succ (Nat.le_max_right _ _)
  | null | bool value | number value | string value => cases h

/-- Written members without a tag among them are kept as they are, where there is room for them. -/
theorem scanMembers_memberDrafts {members : List (String × Json)} (found : Option τ)
    (untagged : variants.tag ∉ members.map Prod.fst) (shallow : Json.memberDepth members ≤ room) :
    variants.scanMembers room .closed found (Json.memberDrafts members) = .ok (found, members) := by
  induction members with
  | nil => rfl
  | cons member rest ih =>
    obtain ⟨hkey, hrest⟩ := not_or.1 (mt List.mem_cons.2 untagged)
    obtain ⟨hvalue, hothers⟩ := max_le_iff.1 shallow
    have htree : member.2.toDraft.tree room = .ok member.2 := by
      rw [Draft.tree, Draft.settle_toDraft, if_pos hvalue]
      rfl
    simp only [Json.memberDrafts, scanMembers, htree, ih hrest hothers]
    exact if_neg (Ne.symm hkey)

/-- An object in which the tag comes first has the rest of its members as the content. -/
theorem ofDraft_toDraft {name : String} {variant : τ} {members : List (String × Json)}
    (hname : variants.ofName name = .ok variant) (untagged : variants.tag ∉ members.map Prod.fst)
    (shallow : Json.memberDepth members ≤ room) :
    variants.ofDraft (room + 1) (Json.object ((variants.tag, .string name) :: members)).toDraft =
      .ok (variant, .object members) := by
  have hscan : variants.scanMembers room .closed none
      (Json.memberDrafts ((variants.tag, .string name) :: members)) =
        .ok (some variant, members) := by
    rw [Json.memberDrafts, scanMembers]
    show (if variants.tag = variants.tag then _ else _) = _
    rw [if_pos rfl]
    show Read.ofShape (variants.ofName name) >>= _ = _
    rw [hname]
    exact scanMembers_memberDrafts (some variant) untagged shallow
  show variants.scanMembers room .closed none
    (Json.memberDrafts ((variants.tag, .string name) :: members)) >>= _ = _
  rw [hscan]
  rfl

end ElementCatalog.Variants
