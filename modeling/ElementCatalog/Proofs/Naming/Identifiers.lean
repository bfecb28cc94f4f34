import ElementCatalog.Proofs.Naming.Redirect
import ElementCatalog.Proofs.Naming.Rounds

/-!
# The identifiers that instances end with

Naming keeps every element at its position, and gives each instance the final identifier that the
plan has for it (`NamingConfig.getElem?_rename_ofInstance`).

## Main results

* `NamingConfig.resolve_eq_ok`: naming succeeds under valid rules;
* `NamingConfig.resolve_id_eq_iff`: instances share an identifier after naming exactly if they did
  before, and then they keep it.
-/

namespace ElementCatalog

/-- The instances among elements are those elements that are instances. -/
theorem mem_instancesOf_iff {elements : List Element} {self : Instance} :
    self ∈ instancesOf elements ↔ .ofInstance self ∈ elements := by
  constructor
  · intro hself
    obtain ⟨element, helement, hsome⟩ := List.mem_filterMap.1 hself
    cases element with
    | ofType definition => cases hsome
    | ofInstance found =>
      obtain rfl := Option.some.inj hsome
      exact helement
  · intro hself
    exact List.mem_filterMap.2 ⟨_, hself, rfl⟩

/-- An instance at some position is among the instances. -/
theorem mem_instancesOf_of_getElem? {elements : List Element} {position : Nat} {self : Instance}
    (h : elements[position]? = some (.ofInstance self)) : self ∈ instancesOf elements :=
  mem_instancesOf_iff.2 (List.mem_of_getElem? h)

/-- An instance among elements is at some position. -/
theorem exists_getElem?_of_mem_instancesOf {elements : List Element} {self : Instance}
    (h : self ∈ instancesOf elements) :
    ∃ position : Nat, elements[position]? = some (.ofInstance self) :=
  List.mem_iff_getElem?.1 (mem_instancesOf_iff.1 h)

namespace NamingPlan

/-- The renames of a plan are those of the instances whose final identifier is another one. -/
theorem mem_renames_iff {plan : NamingPlan} {instances : List Instance} {rename : Rename} :
    rename ∈ plan.renames instances ↔ ∃ self ∈ instances,
      plan.names.finalId self ≠ self.id ∧ rename = ⟨self.id, plan.names.finalId self⟩ := by
  rw [renames, List.mem_filterMap]
  refine exists_congr fun self => and_congr_right fun _ => ?_
  by_cases h : plan.names.finalId self = self.id <;> simp [h, eq_comm]

/-- The renames of a plan give an instance its final identifier. -/
theorem id_applyTo_renames {plan : NamingPlan} {instances : List Instance} {self : Instance}
    (h : ∃ other ∈ instances, other.id = self.id) :
    (Rename.applyTo (plan.renames instances) self).id = plan.names.finalId self := by
  rw [Rename.applyTo]
  cases hfind : (plan.renames instances).find? (·.old == self.id) with
  | some rename =>
    obtain ⟨other, -, -, rfl⟩ := mem_renames_iff.1 (List.mem_of_find?_eq_some hfind)
    -- The rename that is found may be that of another instance with the identifier.
    exact NameTable.finalId_congr (by simpa using List.find?_some hfind)
  | none =>
    obtain ⟨other, hother, hid⟩ := h
    -- No rename of the identifier is found, so the final one is no other.
    have hfinal : plan.names.finalId other = plan.names.finalId self := NameTable.finalId_congr hid
    by_contra hne
    have hmem : (⟨other.id, plan.names.finalId other⟩ : Rename) ∈ plan.renames instances :=
      mem_renames_iff.2 ⟨other, hother, fun heq => hne (by rw [← hfinal, heq, hid]), rfl⟩
    simpa [hid] using List.find?_eq_none.1 hfind _ hmem

end NamingPlan

namespace NamingConfig

variable {config : NamingConfig} {elements : List Element}

/-- The instances among elements, to be named together. -/
def batchOf (config : NamingConfig) (elements : List Element) : Batch :=
  ⟨config, instancesOf elements⟩

/-- The renames that naming elements makes. -/
def renamesOf (config : NamingConfig) (elements : List Element) : List Rename :=
  (config.batchOf elements).plan.renames (instancesOf elements)

/-- The steps in which naming redirects references. -/
def stepsOf (config : NamingConfig) (elements : List Element) : List (Rename × ReferenceSite) :=
  Rename.steps (config.renamesOf elements)
    (.build (instancesOf elements) (config.batchOf elements).nameableTargets)

/-- Under valid rules naming succeeds. -/
theorem resolve_eq_ok (valid : config.check = .ok ()) (elements : List Element) :
    config.resolve elements = .ok (config.rename elements) := by
  rw [resolve, valid]
  rfl

/-- Naming lets each element follow the steps of redirecting, and then renames it. -/
theorem rename_fst : (config.rename elements).1 =
    elements.map fun element =>
      (Rename.follow (config.stepsOf elements) element).1.mapInstance
        (Rename.applyTo (config.renamesOf elements)) := by
  simp only [rename, Rename.redirectAll_eq, Rename.followAll, List.map_map]
  rfl

/-- Naming keeps an instance at its position and gives it the final identifier of the plan. -/
theorem getElem?_rename_ofInstance (config : NamingConfig) {position : Nat} {self : Instance}
    (h : elements[position]? = some (.ofInstance self)) :
    ∃ after, (config.rename elements).1[position]? = some (.ofInstance after) ∧
      after.id = (config.batchOf elements).plan.names.finalId self := by
  obtain ⟨followed, hfollow, hid⟩ :=
    Rename.exists_follow_ofInstance self (config.stepsOf elements)
  refine ⟨Rename.applyTo (config.renamesOf elements) followed, ?_, ?_⟩
  · rw [rename_fst, List.getElem?_map, h, Option.map_some, hfollow]
    rfl
  · rw [renamesOf, NamingPlan.id_applyTo_renames ⟨self, mem_instancesOf_of_getElem? h, hid.symm⟩]
    exact NameTable.finalId_congr hid

/-- An instance that shares its identifier with another keeps it. -/
theorem finalId_eq_self_of_isShared {self : Instance}
    (h : (config.batchOf elements).isShared self.id = true) :
    (config.batchOf elements).plan.names.finalId self = self.id := by
  refine NameTable.finalId_eq_self (Option.not_isSome_iff_eq_none.1 fun hnamed => ?_)
  obtain ⟨other, hother, hid⟩ := List.mem_map.1 (Batch.isSome_getElem?_plan_names_iff.1 hnamed).1
  obtain ⟨-, hshared, -⟩ := Batch.mem_candidates_iff.1 (Batch.plan_order_subset hother)
  rw [hid, h] at hshared
  cases hshared

/-- An identifier is shared if it is found at two positions. -/
theorem isShared_eq (id : ElementId) : (config.batchOf elements).isShared id =
    decide (1 < elements.countP fun element =>
      (element.asInstance?.map (·.id == id)).getD false) := by
  have hcount : (instancesOf elements).countP (·.id == id) =
      elements.countP fun element => (element.asInstance?.map (·.id == id)).getD false :=
    List.countP_filterMap
  rw [Batch.isShared, batchOf, hcount]

/-- Two positions that hold instances with one identifier share it. -/
theorem isShared_of_getElem? (config : NamingConfig) {i j : Nat} {a b : Instance} (hij : i ≠ j)
    (ha : elements[i]? = some (.ofInstance a)) (hb : elements[j]? = some (.ofInstance b))
    (hid : a.id = b.id) : (config.batchOf elements).isShared a.id = true := by
  rw [isShared_eq, decide_eq_true_eq]
  rcases Nat.lt_or_gt_of_ne hij with h | h
  · exact one_lt_countP h ha hb (by simp [Element.asInstance?]) (by simp [Element.asInstance?, hid])
  · exact one_lt_countP h hb ha (by simp [Element.asInstance?, hid]) (by simp [Element.asInstance?])

/-- Under valid rules naming succeeds, and instances at two positions have one identifier after it
exactly if they had one before, which they then keep. -/
theorem resolve_id_eq_iff (valid : config.check = .ok ()) (elements : List Element) :
    ∃ (after : List Element) (report : NamingReport),
      config.resolve elements = .ok (after, report) ∧
      ∀ (i j : Nat) (a b : Instance), i ≠ j → elements[i]? = some (.ofInstance a) →
        elements[j]? = some (.ofInstance b) →
        ∃ a' b' : Instance, after[i]? = some (.ofInstance a') ∧ after[j]? = some (.ofInstance b') ∧
          (a'.id = b'.id ↔ a.id = b.id) ∧ (a.id = b.id → a'.id = a.id ∧ b'.id = a.id) := by
  refine ⟨_, _, resolve_eq_ok valid elements, fun i j a b hij ha hb => ?_⟩
  obtain ⟨a', ha', hidA⟩ := getElem?_rename_ofInstance config ha
  obtain ⟨b', hb', hidB⟩ := getElem?_rename_ofInstance config hb
  refine ⟨a', b', ha', hb', ?_, fun hid => ?_⟩
  · rw [hidA, hidB]
    exact Batch.finalId_plan_names_eq_iff (mem_instancesOf_of_getElem? ha)
      (mem_instancesOf_of_getElem? hb)
  · -- Instances that share an identifier are not renamed.
    have hkept := finalId_eq_self_of_isShared (isShared_of_getElem? config hij ha hb hid)
    exact ⟨hidA.trans hkept, (hidB.trans (NameTable.finalId_congr hid.symm)).trans hkept⟩

/-- Rules by which instances of the type `t` are named after their field `n`. -/
def fieldRules : NamingConfig :=
  NamingConfig.standard.withType "t" ⟨[⟨true, "n"⟩], false⟩

/-- Two instances that are to exchange their names. -/
def exchanged : List Element :=
  [.ofInstance (.declare "a" "t" "x" [("n", .string "y")]),
    .ofInstance (.declare "a" "t" "y" [("n", .string "x")])]

/-- Instances that exchange their names do not share one. -/
theorem resolve_id_eq_iff_exchanged :
    fieldRules.check = .ok () ∧
      ∃ (after : List Element) (report : NamingReport),
        fieldRules.resolve exchanged = .ok (after, report) ∧
        ∃ a b : Instance, after[0]? = some (.ofInstance a) ∧ after[1]? = some (.ofInstance b) ∧
          a.id ≠ b.id := by
  have valid : fieldRules.check = .ok () := by decide
  obtain ⟨after, report, hresolve, hids⟩ := resolve_id_eq_iff valid exchanged
  obtain ⟨a, b, ha, hb, hiff, -⟩ := hids 0 1 _ _ (by decide) rfl rfl
  exact ⟨valid, after, report, hresolve, a, b, ha, hb, fun h => absurd (hiff.1 h) (by decide)⟩

end NamingConfig

end ElementCatalog
