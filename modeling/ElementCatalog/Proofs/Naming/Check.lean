import ElementCatalog.Proofs.Keyed
import ElementCatalog.Proofs.Naming.Identifiers
import ElementCatalog.Proofs.Text.Bytes

/-!
# Rules that cannot be followed

Naming checks all rules before it looks at any element, and nothing behind the check fails. Rules
are flawed if nothing contributes to names, or if a field cannot be looked up
(`NamingRules.AreFlawed`). A flawed configuration is reported by the first defect of its default
rules, or else of the rules of the type whose name has the smallest bytes
(`NamingConfig.FirstFlaw`).

* `NamingConfig.error?_eq_some_iff`: the check finds the first flaw;
* `NamingConfig.run_resolveInPlace`: naming where the elements are leaves the elements that naming
  returns, and where it fails all elements as they are;
* `NamingConfig.withTypes_congr`: the order in which types were added does not matter;
* `NamingConfig.resolve_fails_iff`: naming fails exactly on a flawed configuration.
-/

namespace ElementCatalog

open Keyed (LastUnder lastUnder_concat)
open Text (bytes bytes_lt_bytes_iff)

/-- In a list with ascending keys, the first hit is the one with the smallest key. -/
theorem findSome?_eq_some_iff_of_ascending {α β : Type} {entries : List (String × α)}
    (ascending : entries.Pairwise fun a b => a.1 < b.1) {hit? : String × α → Option β} {hit : β} :
    entries.findSome? hit? = some hit ↔
      ∃ entry ∈ entries, hit? entry = some hit ∧
        ∀ other ∈ entries, hit? other ≠ none → other.1 ≠ entry.1 → entry.1 < other.1 := by
  rw [List.findSome?_eq_some_iff]
  constructor
  · rintro ⟨front, entry, back, rfl, hhit, hfront⟩
    refine ⟨entry, by simp, hhit, fun other hother hfound hne => ?_⟩
    -- In front there is no hit, and behind the keys are larger.
    rcases List.mem_append.1 hother with hother | hother
    · exact absurd (hfront other hother) hfound
    · rcases List.mem_cons.1 hother with rfl | hother
      · exact absurd rfl hne
      · exact List.rel_of_pairwise_cons (List.pairwise_append.1 ascending).2.1 hother
  · rintro ⟨entry, hentry, hhit, hsmallest⟩
    obtain ⟨front, back, rfl⟩ := List.append_of_mem hentry
    refine ⟨front, entry, back, rfl, hhit, fun other hother => ?_⟩
    have hlt : other.1 < entry.1 :=
      (List.pairwise_append.1 ascending).2.2 other hother entry List.mem_cons_self
    by_contra hfound
    have hgt := hsmallest other (List.mem_append_left _ hother) hfound (ne_of_lt hlt)
    exact lt_asymm hlt hgt

namespace IdField

variable {field : IdField} {defect : RuleDefect}

/-- The field cannot be looked up: its path is empty or has an empty segment. -/
def IsFlawed (field : IdField) : Prop :=
  field.path = "" ∨ "" ∈ Dotted.split field.path

/-- The defect of a flawed field. An empty path counts as such, not for its one empty segment. -/
inductive HasDefect (field : IdField) : RuleDefect → Prop
  /-- The path is empty. -/
  | noPath (empty : field.path = "") : HasDefect field (.noPath field)
  /-- The path has an empty segment among others. -/
  | emptySegment (path : field.path ≠ "") (empty : "" ∈ Dotted.split field.path) :
      HasDefect field (.emptySegment field)

/-- The check of a field finds its defect. -/
theorem defect?_eq_some_iff : field.defect? = some defect ↔ field.HasDefect defect := by
  rw [defect?]
  constructor
  · intro h
    split at h
    · next hempty =>
      obtain rfl := Option.some.inj h
      exact .noPath hempty
    · next hpath =>
      split at h
      · next hempty =>
        obtain rfl := Option.some.inj h
        exact .emptySegment hpath hempty
      · cases h
  · rintro (hempty | ⟨hpath, hempty⟩)
    · rw [if_pos hempty]
    · rw [if_neg hpath, if_pos hempty]

/-- The check of a field finds nothing exactly if the field has no flaw. -/
theorem defect?_eq_none_iff : field.defect? = none ↔ ¬ field.IsFlawed := by
  rw [defect?, IsFlawed, not_or]
  split
  · next hempty => simp [hempty]
  · next hpath =>
    split
    · next hempty => simp [hempty]
    · next hfull => simp [hpath, hfull]

end IdField

namespace NamingRules

variable {rules : NamingRules} {defect : RuleDefect}

/-- The rules cannot be followed: nothing contributes to names, or a field is flawed. -/
def AreFlawed (rules : NamingRules) : Prop :=
  (rules.idFields = [] ∧ rules.extendsParent = false) ∨ ∃ field ∈ rules.idFields, field.IsFlawed

/-- The first defect of flawed rules. -/
inductive FirstDefect (rules : NamingRules) : RuleDefect → Prop
  /-- Nothing contributes to names. -/
  | noFields (empty : rules.idFields = []) (alone : rules.extendsParent = false) :
      FirstDefect rules .noFields
  /-- The first flawed field has the defect. -/
  | ofField {front back : List IdField} {field : IdField} {defect : RuleDefect}
      (place : rules.idFields = front ++ field :: back)
      (fine : ∀ earlier ∈ front, ¬ earlier.IsFlawed) (has : field.HasDefect defect) :
      FirstDefect rules defect

/-- The check of rules finds their first defect. -/
theorem defect?_eq_some_iff : rules.defect? = some defect ↔ rules.FirstDefect defect := by
  have hfields : rules.idFields.findSome? IdField.defect? = some defect ↔
      ∃ front field back, rules.idFields = front ++ field :: back ∧ field.HasDefect defect ∧
        ∀ earlier ∈ front, ¬ earlier.IsFlawed := by
    simp only [List.findSome?_eq_some_iff, IdField.defect?_eq_some_iff, IdField.defect?_eq_none_iff]
  rw [defect?]
  split
  · next hnone =>
    constructor
    · intro h
      obtain rfl := Option.some.inj h
      exact .noFields hnone.1 hnone.2
    · rintro (_ | ⟨place, -, -⟩)
      · rfl
      · simp [hnone.1] at place
  · next hsome =>
    rw [hfields]
    constructor
    · rintro ⟨front, field, back, place, has, fine⟩
      exact .ofField place fine has
    · rintro (⟨hnone, alone⟩ | ⟨place, fine, has⟩)
      · exact absurd ⟨hnone, alone⟩ hsome
      · exact ⟨_, _, _, place, has, fine⟩

/-- The check of rules finds nothing exactly if they can be followed. -/
theorem defect?_eq_none_iff : rules.defect? = none ↔ ¬ rules.AreFlawed := by
  rw [defect?, AreFlawed, not_or]
  split
  · next hnone => simp [hnone]
  · next hsome => simp [hsome, IdField.defect?_eq_none_iff]

/-- Flawed rules have a first defect. -/
theorem areFlawed_iff : rules.AreFlawed ↔ ∃ defect, rules.FirstDefect defect := by
  simp only [← defect?_eq_some_iff, ← Option.isSome_iff_exists, ← Option.ne_none_iff_isSome, ne_eq,
    defect?_eq_none_iff, not_not]

end NamingRules

namespace NamingConfig

variable {config : NamingConfig} {elements : List Element} {error : NamingError}

/-- Some rules of the configuration cannot be followed. -/
def IsFlawed (config : NamingConfig) : Prop :=
  config.defaults.AreFlawed ∨
    ∃ (typeName : String) (rules : NamingRules),
      config.types[typeName]? = some rules ∧ rules.AreFlawed

/-- The error that stands for a flawed configuration: the first defect of the default rules if these
are flawed, and otherwise that of the flawed rules whose type has the first name by its bytes. -/
inductive FirstFlaw (config : NamingConfig) : NamingError → Prop
  /-- The default rules are flawed. -/
  | ofDefaults {defect : RuleDefect} (first : config.defaults.FirstDefect defect) :
      FirstFlaw config ⟨defaultsName, defect⟩
  /-- The default rules can be followed, and those of a type are flawed. -/
  | ofType {typeName : String} {rules : NamingRules} {defect : RuleDefect}
      (fine : ¬ config.defaults.AreFlawed) (held : config.types[typeName]? = some rules)
      (first : rules.FirstDefect defect)
      (smallest : ∀ (other : String) (flawed : NamingRules), config.types[other]? = some flawed →
        flawed.AreFlawed → other ≠ typeName → bytes typeName < bytes other) :
      FirstFlaw config ⟨typeName, defect⟩

/-- The check of the rules of types finds the first flawed ones by the bytes of the name. -/
theorem findSome?_types_eq_some_iff :
    config.types.toList.findSome? (fun (typeName, rules) =>
        rules.defect?.map (NamingError.mk typeName)) = some error ↔
      ∃ rules, config.types[error.typeName]? = some rules ∧ rules.FirstDefect error.defect ∧
        ∀ (other : String) (flawed : NamingRules), config.types[other]? = some flawed →
          flawed.AreFlawed → other ≠ error.typeName → bytes error.typeName < bytes other := by
  obtain ⟨typeName, defect⟩ := error
  have ascending : config.types.toList.Pairwise fun a b => a.1 < b.1 :=
    (Std.ExtTreeMap.ordered_keys_toList (t := config.types)).imp compareOfLessAndEq_eq_lt.1
  rw [findSome?_eq_some_iff_of_ascending ascending]
  simp only [Prod.exists, Prod.forall, Std.ExtTreeMap.mem_toList_iff_getElem?_eq_some, ne_eq,
    Option.map_eq_none_iff, Option.map_eq_some_iff, NamingRules.defect?_eq_none_iff, not_not,
    NamingRules.defect?_eq_some_iff, NamingError.mk.injEq, bytes_lt_bytes_iff]
  constructor
  · rintro ⟨_, rules, held, ⟨_, first, rfl, rfl⟩, smallest⟩
    exact ⟨rules, held, first, smallest⟩
  · rintro ⟨rules, held, first, smallest⟩
    exact ⟨typeName, rules, held, ⟨defect, first, rfl, rfl⟩, smallest⟩

/-- The check finds the first flaw. -/
theorem error?_eq_some_iff : config.error? = some error ↔ config.FirstFlaw error := by
  rw [error?, namedRules, List.findSome?_cons]
  dsimp only
  cases hdefaults : config.defaults.defect? with
  | some defect =>
    have first := NamingRules.defect?_eq_some_iff.1 hdefaults
    constructor
    · intro h
      obtain rfl := Option.some.inj h
      exact .ofDefaults first
    · rintro (first' | ⟨fine, -, -, -⟩)
      · rw [← NamingRules.defect?_eq_some_iff, hdefaults, Option.some.injEq] at first'
        rw [first', Option.map_some]
      · exact absurd (NamingRules.areFlawed_iff.2 ⟨defect, first⟩) fine
  | none =>
    have fine := NamingRules.defect?_eq_none_iff.1 hdefaults
    refine findSome?_types_eq_some_iff.trans ⟨?_, ?_⟩
    · rintro ⟨rules, held, first, smallest⟩
      exact .ofType fine held first smallest
    · rintro (first | ⟨-, held, first, smallest⟩)
      · exact absurd (NamingRules.areFlawed_iff.2 ⟨_, first⟩) fine
      · exact ⟨_, held, first, smallest⟩

/-- Naming fails with what the check finds. -/
theorem resolve_eq_error_iff :
    config.resolve elements = .error error ↔ config.FirstFlaw error := by
  rw [← error?_eq_some_iff, resolve, check]
  cases config.error? with
  | none =>
    constructor
    · intro h
      cases h
    · intro h
      cases h
  | some found => simp [bind, Except.bind]

/-- A flawed configuration has a first flaw. -/
theorem isFlawed_iff : config.IsFlawed ↔ ∃ error, config.FirstFlaw error := by
  simp only [← error?_eq_some_iff, ← Option.isSome_iff_exists, ← Option.ne_none_iff_isSome, ne_eq]
  rw [iff_not_comm, error?, namedRules]
  simp only [List.findSome?_eq_none_iff, List.mem_cons, forall_eq_or_imp, Option.map_eq_none_iff,
    NamingRules.defect?_eq_none_iff, IsFlawed, not_or, not_exists, not_and, Prod.forall,
    Std.ExtTreeMap.mem_toList_iff_getElem?_eq_some]

end NamingConfig

/-! ### Naming in place -/

/-- A computation that changes elements where they are, and can fail. -/
abbrev InPlace := ExceptT NamingError (StateM (List Element))

namespace InPlace

variable {α β : Type}

/-- A computation goes on behind a part that succeeds, with the elements that this leaves. -/
theorem run_bind {action : InPlace α} {next : α → InPlace β} {value : α}
    {before after : List Element} (h : action.run.run before = (.ok value, after)) :
    (action >>= next).run.run before = (next value).run.run after := by
  rw [ExceptT.run_bind, StateT.run_bind, h]
  rfl

/-- Steps that never fail change the elements and what is counted one after another. -/
theorem run_foldlM {step : β → α → InPlace β}
    {change : List Element × β → α → List Element × β}
    (h : ∀ counted item before, (step counted item).run.run before =
      (.ok (change (before, counted) item).2, (change (before, counted) item).1))
    (items : List α) (counted : β) (before : List Element) :
    (items.foldlM step counted).run.run before =
      (.ok (items.foldl change (before, counted)).2, (items.foldl change (before, counted)).1) := by
  induction items generalizing counted before with
  | nil => rfl
  | cons item rest ih =>
    rw [List.foldlM_cons, List.foldl_cons, run_bind (h counted item before)]
    exact ih _ _

end InPlace

namespace Rename

/-- The references at a place redirected where they are, and how many were in all. -/
def redirectSiteInPlace (rename : Rename) (count : Nat) (site : ReferenceSite) : InPlace Nat := do
  let (redirected, more) := rename.redirectSite site (← get)
  set redirected
  return count + more

/-- The references to a renamed instance redirected where they are, and how many were in all. -/
def redirectInPlace (index : ReferenceIndex) (count : Nat) (rename : Rename) : InPlace Nat := do
  let more ← (index.referrers rename.old).foldlM rename.redirectSiteInPlace 0
  return count + more

/-- Redirecting the references to a renamed instance in place leaves the redirected elements. -/
theorem run_redirectInPlace (index : ReferenceIndex) (count : Nat) (rename : Rename)
    (elements : List Element) :
    (redirectInPlace index count rename).run.run elements =
      let (redirected, more) := rename.redirectSites (index.referrers rename.old) elements
      (.ok (count + more), redirected) := by
  have hsites : ((index.referrers rename.old).foldlM rename.redirectSiteInPlace 0).run.run elements =
      (.ok (rename.redirectSites (index.referrers rename.old) elements).2,
        (rename.redirectSites (index.referrers rename.old) elements).1) := by
    rw [redirectSites]
    refine InPlace.run_foldlM (fun count site before => ?_) _ _ _
    rfl
  rw [redirectInPlace, InPlace.run_bind hsites]
  rfl

/-- Redirecting the references to all renamed instances in place leaves the redirected elements. -/
theorem run_redirectAllInPlace (index : ReferenceIndex) (renames : List Rename)
    (elements : List Element) :
    (renames.foldlM (redirectInPlace index) 0).run.run elements =
      (.ok (redirectAll renames index elements).2, (redirectAll renames index elements).1) := by
  rw [redirectAll]
  exact InPlace.run_foldlM (run_redirectInPlace index) _ _ _

end Rename

namespace NamingConfig

variable {config : NamingConfig}

/-- Naming where the elements are: the rules are checked, then references are redirected one after
another, and then instances are renamed. -/
def resolveInPlace (config : NamingConfig) : InPlace NamingReport := do
  config.check
  let elements ← get
  let batch : Batch := ⟨config, instancesOf elements⟩
  let plan := batch.plan
  let renames := plan.renames batch.instances
  let index := ReferenceIndex.build batch.instances batch.nameableTargets
  let count ← renames.foldlM (Rename.redirectInPlace index) 0
  modify (List.map (Element.mapInstance (Rename.applyTo renames)))
  let ids := batch.instances.map Instance.id
  return {
    renamed := renames.map fun rename => (rename.old, rename.new)
    suppressed := ids.filter (· ∈ plan.held)
    duplicates := batch.sharedIds.toList
    cyclic := ids.filter (· ∈ plan.cyclic)
    missingTargets := (batch.missingTargets plan elements).toList
    redirectedReferences := count }

/-- Naming in place leaves the elements that naming returns. Where naming fails, it leaves all
elements as they are. -/
theorem run_resolveInPlace (config : NamingConfig) (elements : List Element) :
    config.resolveInPlace.run.run elements =
      match config.resolve elements with
      | .ok (after, report) => (.ok report, after)
      | .error error => (.error error, elements) := by
  cases hcheck : config.check with
  | error error =>
    rw [resolveInPlace, resolve, hcheck]
    rfl
  | ok _ =>
    have hchecked : (liftM config.check : InPlace Unit).run.run elements = (.ok (), elements) := by
      rw [hcheck]
      rfl
    have hget : (get : InPlace (List Element)).run.run elements = (.ok elements, elements) := rfl
    rw [resolve_eq_ok hcheck, resolveInPlace, InPlace.run_bind hchecked, InPlace.run_bind hget]
    dsimp only
    rw [InPlace.run_bind (Rename.run_redirectAllInPlace _ _ elements)]
    rfl

/-! ### Rules added in any order -/

/-- The configuration with the rules of several types added one after another. -/
def withTypes (added : List (String × NamingRules)) (config : NamingConfig) : NamingConfig :=
  added.foldl (fun config (typeName, rules) => config.withType typeName rules) config

/-- Adding rules of types leaves the default rules. -/
theorem defaults_withTypes (added : List (String × NamingRules)) :
    (config.withTypes added).defaults = config.defaults := by
  induction added generalizing config with
  | nil => rfl
  | cons first rest ih => exact ih

/-- A type has the last rules that were added for it, or else those that it had before. -/
theorem getElem?_types_withTypes {added : List (String × NamingRules)} {typeName : String}
    {rules : NamingRules} :
    (config.withTypes added).types[typeName]? = some rules ↔
      LastUnder typeName rules added ∨
        (∀ other, ¬ LastUnder typeName other added) ∧ config.types[typeName]? = some rules := by
  induction added using List.reverseRecOn with
  | nil => simp [withTypes, LastUnder]
  | append_singleton added last ih =>
    rw [withTypes, List.foldl_append, List.foldl_cons, List.foldl_nil]
    change ((config.withTypes added).types.insert last.1 last.2)[typeName]? = some rules ↔ _
    rw [Std.ExtTreeMap.getElem?_insert]
    simp only [lastUnder_concat]
    by_cases hname : typeName = last.1
    · simp [hname, eq_comm]
    · have hne : compare last.1 typeName ≠ .eq := fun h =>
        hname (Std.LawfulEqCmp.eq_of_compare h).symm
      simp only [if_neg hne, if_neg hname, ih]

/-- Only the last rules for each type matter, and not the order in which types were added. -/
theorem withTypes_congr {added added' : List (String × NamingRules)}
    (h : ∀ typeName rules, LastUnder typeName rules added ↔ LastUnder typeName rules added') :
    config.withTypes added = config.withTypes added' := by
  have htypes : (config.withTypes added).types = (config.withTypes added').types := by
    refine Std.ExtTreeMap.ext_getElem? fun typeName => Option.ext fun rules => ?_
    rw [getElem?_types_withTypes, getElem?_types_withTypes]
    simp only [h]
  have hdefaults := (config.defaults_withTypes added).trans (config.defaults_withTypes added').symm
  cases hleft : config.withTypes added
  cases hright : config.withTypes added'
  rw [hleft, hright] at htypes hdefaults
  exact congrArg₂ NamingConfig.mk htypes hdefaults

/-- Rules of distinct types are the last ones for each of them in any order. -/
theorem lastUnder_iff_of_perm {added added' : List (String × NamingRules)} {typeName : String}
    {rules : NamingRules} (distinct : (Keyed.keys added).Nodup) (h : added.Perm added') :
    LastUnder typeName rules added ↔ LastUnder typeName rules added' := by
  have distinct' : (Keyed.keys added').Nodup := (h.map Prod.fst).nodup_iff.1 distinct
  exact ⟨fun last => Keyed.lastUnder_of_mem distinct' (h.mem_iff.1 last.mem),
    fun last => Keyed.lastUnder_of_mem distinct (h.mem_iff.2 last.mem)⟩

/-- Naming fails exactly if some rules cannot be followed, whatever the elements are. It fails with
the first flaw, which does not depend on the order in which types were added, and it leaves all
elements as they are. -/
theorem resolve_fails_iff (config : NamingConfig) (elements : List Element) :
    ((∃ error, config.resolve elements = .error error) ↔ config.IsFlawed) ∧
    (∀ error, config.resolve elements = .error error ↔ config.FirstFlaw error) ∧
    (∀ error after, config.resolveInPlace.run.run elements = (.error error, after) ↔
      config.FirstFlaw error ∧ after = elements) ∧
    ∀ added added' : List (String × NamingRules),
      (∀ typeName rules, LastUnder typeName rules added ↔ LastUnder typeName rules added') →
        (config.withTypes added).resolve elements = (config.withTypes added').resolve elements := by
  refine ⟨?_, fun error => resolve_eq_error_iff, fun error after => ?_, fun added added' h => ?_⟩
  · simp only [resolve_eq_error_iff, isFlawed_iff]
  · rw [run_resolveInPlace, ← @resolve_eq_error_iff config elements]
    cases config.resolve elements with
    | error found => exact Prod.mk_inj.trans (and_congr (by simp) eq_comm)
    | ok named =>
      constructor
      · intro h
        cases h
      · rintro ⟨h, -⟩
        cases h
  · rw [withTypes_congr h]

/-- Rules for three types. Those of the first one have several defects, those of the second one
have no field. -/
def threeTypes : List (String × NamingRules) :=
  [("ﬁ", ⟨[⟨true, "n"⟩, ⟨true, ""⟩, ⟨false, "m..n"⟩], true⟩), ("𝐀", ⟨[], false⟩),
    ("t", ⟨[⟨true, "n"⟩], false⟩)]

/-- Of two types with flawed rules the one is reported whose name has the smaller bytes, though it
has the larger code units. No element is of either type. -/
theorem resolve_fails_iff_ligature :
    let elements := [Element.ofInstance (.declare "a" "t" "x" [("n", .string "y")])]
    let error : NamingError := ⟨"ﬁ", .noPath ⟨true, ""⟩⟩
    let config := standard.withTypes threeTypes
    config.resolve elements = .error error ∧ config.FirstFlaw error ∧ config.IsFlawed ∧
      config.resolveInPlace.run.run elements = (.error error, elements) ∧
      (standard.withTypes threeTypes.reverse).resolve elements = .error error := by
  intro elements error config
  have hresolve : config.resolve elements = .error error := by
    have hcheck : config.check = .error error := by decide +kernel
    rw [resolve, hcheck]
    rfl
  obtain ⟨hfails, hfirst, hplace, horder⟩ := resolve_fails_iff config elements
  have first := (hfirst error).1 hresolve
  refine ⟨hresolve, first, hfails.1 ⟨error, hresolve⟩, (hplace error elements).2 ⟨first, rfl⟩, ?_⟩
  have hordered := (resolve_fails_iff standard elements).2.2.2 threeTypes threeTypes.reverse
    fun _ _ => lastUnder_iff_of_perm (by decide) threeTypes.reverse_perm.symm
  exact hordered.symm.trans hresolve

end NamingConfig

end ElementCatalog
