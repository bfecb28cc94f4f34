import ElementCatalog.Proofs.Naming.References

/-!
# What naming leaves as it is

Naming changes identifiers of instances, and targets of references to renamed instances or to
something below them. Everything else is kept: each element, each literal, each key and position,
each snapshot, and each other reference (`NamingConfig.resolve_keeps`). This holds of all elements,
also of instances that share their identifier and are therefore looked into for references that
another one holds.

## Main definitions

* `Value.Redirected`, `Instance.Redirected`: a value or an instance with at most the targets of some
  references changed;
* `Element.Renamed`: an element with at most that and its identifier changed.
-/

namespace ElementCatalog

/-- The items at one position of two lists that differ in one item are these two, or the same. -/
theorem eq_or_eq_of_getElem?_beside {α : Type} {front back : List α} {item other x y : α} {i : Nat}
    (hx : (front ++ item :: back)[i]? = some x) (hy : (front ++ other :: back)[i]? = some y) :
    x = item ∧ y = other ∨ y = x := by
  by_cases h : i = front.length
  · subst h
    left
    constructor
    · simpa using hx.symm
    · simpa using hy.symm
  · right
    rw [getElem?_beside item other h] at hy
    exact Option.some.inj (hy.symm.trans hx)

/-- In a list of the same length there is an item at the same position. -/
theorem exists_getElem?_of_length_eq {α β : Type} {items : List α} {others : List β}
    (h : others.length = items.length) {i : Nat} {item : α} (hitem : items[i]? = some item) :
    ∃ other, others[i]? = some other := by
  obtain ⟨hlt, -⟩ := List.getElem?_eq_some_iff.1 hitem
  exact ⟨_, List.getElem?_eq_getElem (h ▸ hlt)⟩

namespace Value

/-- `Redirected olds value after`: the value is `after` with at most the targets of references
changed that lie outside snapshots and point to one of `olds` or to something below it. -/
inductive Redirected (olds : List ElementId) : Value → Value → Prop
  /-- A reference keeps its snapshot, and also its target unless this lies under one of `olds`. -/
  | reference {target moved : ElementId} {snapshot : Option Value}
      (moves : moved ≠ target → target.topLevel.1 ∈ olds) :
      Redirected olds (.reference target snapshot) (.reference moved snapshot)
  /-- Nothing stays. -/
  | null : Redirected olds .null .null
  /-- A truth value stays. -/
  | bool {value : Bool} : Redirected olds (.bool value) (.bool value)
  /-- A number stays. -/
  | number {value : Number} : Redirected olds (.number value) (.number value)
  /-- A text stays. -/
  | string {value : String} : Redirected olds (.string value) (.string value)
  /-- A list keeps its positions. -/
  | list {items others : List Value} (length_eq : others.length = items.length)
      (held : ∀ (i : Nat) item other, items[i]? = some item → others[i]? = some other →
        Redirected olds item other) :
      Redirected olds (.list items) (.list others)
  /-- A map keeps its keys and their order. -/
  | map {members others : List (String × Value)}
      (keys_eq : Keyed.keys others = Keyed.keys members)
      (held : ∀ (i : Nat) member other, members[i]? = some member → others[i]? = some other →
        Redirected olds member.2 other.2) :
      Redirected olds (.map members) (.map others)

namespace Redirected

variable {olds : List ElementId}

/-- A value as it is. -/
theorem refl (olds : List ElementId) : ∀ value : Value, Redirected olds value value
  | .list items => .list rfl fun i item other hitem hother => by
    obtain rfl := Option.some.inj (hitem.symm.trans hother)
    have := List.sizeOf_lt_of_mem (List.mem_of_getElem? hitem)
    exact refl olds item
  | .map members => .map rfl fun i member other hmember hother => by
    obtain rfl := Option.some.inj (hmember.symm.trans hother)
    have := List.sizeOf_lt_of_mem (List.mem_of_getElem? hmember)
    exact refl olds member.2
  | .reference _ _ => .reference fun h => absurd rfl h
  | .null => .null
  | .bool _ => .bool
  | .number _ => .number
  | .string _ => .string
termination_by value => sizeOf value
decreasing_by
  · simp only [Value.list.sizeOf_spec]
    omega
  · obtain ⟨name, value⟩ := member
    simp only [Value.map.sizeOf_spec, Prod.mk.sizeOf_spec] at *
    omega

/-- What is redirected twice is redirected. -/
theorem trans {a b c : Value} (h : Redirected olds a b) (h' : Redirected olds b c) :
    Redirected olds a c := by
  induction h generalizing c with
  | @reference target moved snapshot moves =>
    cases h' with
    | @reference _ moved' _ moves' =>
      refine .reference fun hne => ?_
      -- A target that is changed at all is changed by the first or only by the second.
      by_cases heq : moved = target
      · exact heq ▸ moves' fun hmoved => hne (hmoved.trans heq)
      · exact moves heq
  | null | bool | number | string => exact h'
  | @list items others length_eq held ih =>
    cases h' with
    | @list _ finals length_eq' held' =>
      refine .list (length_eq'.trans length_eq) fun i item final hitem hfinal => ?_
      obtain ⟨other, hother⟩ := exists_getElem?_of_length_eq length_eq hitem
      exact ih i item other hitem hother (held' i other final hother hfinal)
  | @map members others keys_eq held ih =>
    cases h' with
    | @map _ finals keys_eq' held' =>
      refine .map (keys_eq'.trans keys_eq) fun i member final hmember hfinal => ?_
      have length_eq : others.length = members.length := by
        simpa [Keyed.keys] using congrArg List.length keys_eq
      obtain ⟨other, hother⟩ := exists_getElem?_of_length_eq length_eq hmember
      exact ih i member other hmember hother (held' i other final hother hfinal)

end Redirected

/-- A value in which a part is redirected is redirected. -/
theorem Replaced.redirected {olds : List ElementId} {value part new after : Value}
    {path : List PathSegment} (replaced : Replaced value path part new after)
    (h : Redirected olds part new) : Redirected olds value after := by
  induction replaced with
  | here => exact h
  | @key front back name value part new after rest first inner ih =>
    refine .map (by simp [Keyed.keys]) fun i member other hmember hother => ?_
    -- The path goes on in one member, and the members beside it are the same.
    rcases eq_or_eq_of_getElem?_beside hmember hother with ⟨rfl, rfl⟩ | rfl
    · exact ih h
    · exact .refl olds _
  | @index front back item part new after rest inner ih =>
    refine .list (by simp) fun i item other hitem hother => ?_
    rcases eq_or_eq_of_getElem?_beside hitem hother with ⟨rfl, rfl⟩ | rfl
    · exact ih h
    · exact .refl olds _

end Value

namespace Instance

/-- The values and annotations are those of `after` with at most the targets of references changed
that lie outside snapshots and point to one of `olds` or to something below it. -/
def Redirected (olds : List ElementId) (self after : Instance) : Prop :=
  ∀ start, Value.Redirected olds (.map (self.valuesOf start)) (.map (after.valuesOf start))

/-- An instance in which a value is redirected is redirected. -/
theorem Replaced.redirected {olds : List ElementId} {self after : Instance} {path : ValuePath}
    {part new : Value} (replaced : self.Replaced path part new after)
    (h : Value.Redirected olds part new) : self.Redirected olds after := by
  obtain ⟨-, values, replaced, rfl⟩ := replaced
  intro start
  by_cases hstart : start = path.start
  · rw [hstart, valuesOf_withValues_self]
    exact replaced.redirected h
  · rw [valuesOf_withValues_of_ne _ _ hstart]
    exact .refl olds _

end Instance

namespace Rename

/-- Steps for some renames redirect references in an instance and do nothing else to it. -/
theorem exists_follow_redirected {olds : List ElementId} {steps : List (Rename × ReferenceSite)}
    (h : ∀ step ∈ steps, step.1.old ∈ olds) (self : Instance) :
    ∃ after, (follow steps (.ofInstance self)).1 = .ofInstance after ∧ after.id = self.id ∧
      self.Redirected olds after := by
  induction steps generalizing self with
  | nil => exact ⟨self, rfl, rfl, fun start => .refl olds _⟩
  | cons step rest ih =>
    obtain ⟨rename, site⟩ := step
    obtain ⟨hrename, hrest⟩ := List.forall_mem_cons.1 h
    rw [follow]
    split
    · next changed hchanged =>
      obtain ⟨after, snapshot, moved, rfl, -, hmoved, replaced⟩ :=
        redirectElement_ofInstance_eq_some hchanged
      -- Only what lies under the old identifier of a rename is moved by it.
      have htop : site.target.topLevel.1 = rename.old := by
        by_contra hne
        rw [ElementId.rebase_eq_none_iff.2 hne] at hmoved
        cases hmoved
      have hstep : self.Redirected olds after :=
        replaced.redirected (.reference fun _ => htop ▸ hrename)
      obtain ⟨final, hfollow, hid, hfinal⟩ := ih hrest after
      exact ⟨final, hfollow, hid.trans replaced.id_eq, fun start =>
        (hstep start).trans (hfinal start)⟩
    · exact ih hrest self

end Rename

/-- `Renamed renamed element after`: at most the identifier of an instance is changed, by one of the
renames `renamed`, and the targets of references outside snapshots to what these rename or to
something below it. A type definition is not changed at all. -/
inductive Element.Renamed (renamed : List (ElementId × ElementId)) : Element → Element → Prop
  /-- A type definition stays. -/
  | ofType {definition : TypeDefinition} : Renamed renamed (.ofType definition) (.ofType definition)
  /-- An instance keeps all but what renames concern. -/
  | ofInstance {self after : Instance}
      (id_changes : after.id ≠ self.id → (self.id, after.id) ∈ renamed)
      (redirected : self.Redirected (renamed.map Prod.fst) after) :
      Renamed renamed (.ofInstance self) (.ofInstance after)

namespace NamingConfig

variable {config : NamingConfig} {elements : List Element}

/-- The steps of naming are made for its renames. -/
theorem old_mem_of_mem_stepsOf {step : Rename × ReferenceSite}
    (h : step ∈ config.stepsOf elements) :
    step.1.old ∈ (config.rename elements).2.renamed.map Prod.fst := by
  obtain ⟨rename, hrename, hstep⟩ := List.mem_flatMap.1 h
  obtain ⟨site, -, rfl⟩ := List.mem_map.1 hstep
  exact List.mem_map.2 ⟨(rename.old, rename.new), List.mem_map_of_mem hrename, rfl⟩

/-- Naming gives an instance its final identifier, redirects references in it, and does nothing else
to it. -/
theorem exists_ended_ofInstance (config : NamingConfig) {self : Instance}
    (hself : self ∈ instancesOf elements) :
    ∃ ended, (Rename.follow (config.stepsOf elements) (.ofInstance self)).1.mapInstance
        (Rename.applyTo (config.renamesOf elements)) = .ofInstance ended ∧
      ended.id = (config.batchOf elements).plan.names.finalId self ∧
      self.Redirected ((config.rename elements).2.renamed.map Prod.fst) ended := by
  have hsteps : ∀ step ∈ config.stepsOf elements,
      step.1.old ∈ (config.rename elements).2.renamed.map Prod.fst :=
    fun _ => old_mem_of_mem_stepsOf
  obtain ⟨followed, hfollow, hid, redirected⟩ := Rename.exists_follow_redirected hsteps self
  rw [hfollow]
  refine ⟨_, rfl, ?_, ?_⟩
  · exact (NamingPlan.id_applyTo_renames ⟨self, hself, hid.symm⟩).trans
      (NameTable.finalId_congr hid)
  · -- The renames change nothing but the identifier.
    rw [Rename.applyTo]
    split <;> exact redirected

/-- Naming changes at most the identifier of an instance and references to what is renamed. -/
theorem renamed_rename {element : Element} (h : element ∈ elements) :
    element.Renamed (config.rename elements).2.renamed
      ((Rename.follow (config.stepsOf elements) element).1.mapInstance
        (Rename.applyTo (config.renamesOf elements))) := by
  cases element with
  | ofType definition =>
    rw [Rename.follow_ofType]
    exact .ofType
  | ofInstance self =>
    have hself : self ∈ instancesOf elements := List.mem_filterMap.2 ⟨_, h, rfl⟩
    obtain ⟨ended, hended, hid, redirected⟩ := exists_ended_ofInstance config hself
    rw [hended]
    refine .ofInstance (fun hne => ?_) redirected
    rw [hid] at hne ⊢
    exact List.mem_map.2 ⟨_, NamingPlan.mem_renames_iff.2 ⟨self, hself, hne, rfl⟩, rfl⟩

/-- Under valid rules naming succeeds. It keeps the elements in their order, each type definition as
it is, and of each instance all but its identifier, if that is renamed, and the targets of
references outside snapshots to what is renamed or to something below it. -/
theorem resolve_keeps (valid : config.check = .ok ()) (elements : List Element) :
    ∃ (after : List Element) (report : NamingReport),
      config.resolve elements = .ok (after, report) ∧
      List.Forall₂ (Element.Renamed report.renamed) elements after := by
  refine ⟨(config.rename elements).1, (config.rename elements).2, resolve_eq_ok valid elements, ?_⟩
  rw [rename_fst, List.forall₂_map_right_iff, List.forall₂_same]
  exact fun element => renamed_rename

/-- Instances that share an identifier and hold different references under one key are kept beside
instances that are renamed. -/
theorem resolve_keeps_chain :
    fieldRules.check = .ok () ∧
      ∃ (after : List Element) (report : NamingReport),
        fieldRules.resolve (chain "S" "S") = .ok (after, report) ∧
        List.Forall₂ (Element.Renamed report.renamed) (chain "S" "S") after ∧ after.length = 4 := by
  have valid : fieldRules.check = .ok () := by decide
  obtain ⟨after, report, hresolve, hkeeps⟩ := resolve_keeps valid (chain "S" "S")
  exact ⟨valid, after, report, hresolve, hkeeps, hkeeps.length_eq.symm⟩

end NamingConfig

end ElementCatalog
