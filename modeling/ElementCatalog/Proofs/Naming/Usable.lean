import ElementCatalog.Proofs.Naming.Blank
import ElementCatalog.Proofs.Naming.Report

/-!
# New names that can be used

A new identifier is that of a top-level instance of the same type. Its name has no dot and some
character other than `_`, unless the instance contributes nothing but dots and `_` to it.

An instance that contributes nothing else has nothing to be named after, and yet it can be renamed,
in two ways. Dots count when the composed text is looked at, and are turned into `_` only then; and
an instance that falls back on the last part of its identifier loses whatever else this had.

## Main definitions

* `UsableName`: a text that can be used as a name;
* `Composition.ContributesMarks`: what an instance contributes are dots and `_` only;
* `NamingConfig.RenamesUsably`: instances get usable names only, and those that contribute nothing
  keep their identifier.

## Main results

* `NamingConfig.finalId_eq_self_iff`: when an instance keeps its identifier;
* `NamingConfig.resolve_renamesUsably_iff`: a run renames usably exactly if every instance that is
  named and contributes nothing has the identifier already that is made for it.
-/

namespace ElementCatalog

/-- A text that can be used as a name: it has no dots, and some character other than `_`. -/
def UsableName (text : String) : Prop :=
  Dotted.separator ∉ text.toList ∧ ∃ c ∈ text.toList, c ≠ Composition.joiner

/-- A text that consists of dots and `_`. -/
def OnlyMarks (text : String) : Prop :=
  ∀ c ∈ text.toList, c = Dotted.separator ∨ c = Composition.joiner

namespace Composition

variable {nameOf : Reference → String} {rules : NamingRules} {self : Instance} {text : String}

/-- Each id field of an instance, and its first parent if the rules extend it, contributes nothing
but dots and `_`. -/
structure ContributesMarks (nameOf : Reference → String) (rules : NamingRules)
    (contributor : Instance) : Prop where
  /-- What the id fields contribute. -/
  fields : ∀ field ∈ rules.idFields, OnlyMarks (fieldText nameOf contributor field)
  /-- What the first parent contributes. -/
  parent : ∀ parent ∈ parent? rules contributor, OnlyMarks (nameOf parent)

/-- A text that has some other character is used as a name that can be used. -/
theorem exists_usable?_eq_some (h : ¬ OnlyMarks text) :
    ∃ name, usable? text = some name ∧ UsableName name := by
  -- The text is not blank, so it is used, and a blank name would come from dots and `_` only.
  have hblank : ¬ Blank text := fun hblank => h fun c hc => .inr (hblank c hc)
  obtain ⟨name, hname⟩ := Option.ne_none_iff_exists'.1 (mt usable?_eq_none_iff.1 hblank)
  refine ⟨name, hname, separator_not_mem_of_usable?_eq_some hname, ?_⟩
  by_contra hnone
  exact h (blank_of_usable?_eq_some hname fun c hc =>
    by_contra fun hne => hnone ⟨c, hc, hne⟩)

/-- A text consists of dots and `_` if all its characters other than `_` are dots. -/
theorem onlyMarks_iff :
    OnlyMarks text ↔ ∀ c ∈ text.toList, c ≠ joiner → c = Dotted.separator :=
  forall₂_congr fun _ _ => or_iff_not_imp_right

/-- A composed text consists of dots and `_` exactly if everything that is contributed does. -/
theorem onlyMarks_compose_iff :
    OnlyMarks (compose nameOf rules self) ↔ ContributesMarks nameOf rules self := by
  rw [onlyMarks_iff]
  constructor
  · intro h
    -- What is contributed is in the composed text, but for characters that join, too.
    refine ⟨fun field hfield => onlyMarks_iff.2 fun c hc hne => ?_,
      fun parent hparent => onlyMarks_iff.2 fun c hc hne => ?_⟩
    · refine h c ((mem_compose_iff hne).2 (.inl ⟨_, List.mem_map_of_mem hfield, ?_⟩)) hne
      rwa [contribution_find?]
    · exact h c ((mem_compose_iff hne).2 (.inr ⟨parent, hparent, hc⟩)) hne
  · intro marks c hc hne
    rcases (mem_compose_iff hne).1 hc with ⟨value, hvalue, hmem⟩ | ⟨parent, hparent, hmem⟩
    · obtain ⟨field, hfield, rfl⟩ := List.mem_map.1 hvalue
      rw [contribution_find?] at hmem
      exact onlyMarks_iff.1 (marks.fields field hfield) c hmem hne
    · exact onlyMarks_iff.1 (marks.parent parent hparent) c hmem hne

/-- An instance that contributes something gets a name that can be used. -/
theorem usableName_name (h : ¬ ContributesMarks nameOf rules self) :
    UsableName (name nameOf rules self) := by
  obtain ⟨text, htext, husable⟩ := exists_usable?_eq_some (mt onlyMarks_compose_iff.1 h)
  rwa [name, htext, Option.getD_some]

end Composition

namespace NamingConfig

open ElementCatalog.Composition (ContributesMarks usableText joinedText)

variable {config : NamingConfig} {elements after : List Element} {self : Instance}

/-- An instance that is named, neither on a cycle nor held, ends with the identifier that is made of
its name. -/
theorem finalId_eq_idWith (named : config.IsNamed elements self)
    (hcyclic : self.id ∉ (config.rename elements).2.cyclic)
    (hsuppressed : self.id ∉ (config.rename elements).2.suppressed) :
    (config.batchOf elements).plan.names.finalId self = Composition.idWith self
      (Composition.name
        ((config.batchOf elements).referenceName (config.batchOf elements).plan.names)
        (config.rulesFor self.typeName) self) := by
  obtain ⟨position, hposition⟩ := exists_getElem?_of_mem_instancesOf named.1
  have hunique (j : Nat) (other : Instance) (hother : elements[j]? = some (.ofInstance other))
      (hid : other.id = self.id) : j = position :=
    by_contra fun hne => named.2.1 ⟨j, position, other, self, hne, hother, hposition, hid, rfl⟩
  rw [finalId_eq_usableText hposition hunique named.2.2 hcyclic hsuppressed, Composition.idWith,
    Composition.name_eq_usableText]

/-- What is renamed is named, and reported neither as one on a cycle nor as suppressed. -/
theorem unreported_of_finalId_ne (hself : self ∈ instancesOf elements)
    (hne : (config.batchOf elements).plan.names.finalId self ≠ self.id) :
    config.IsNamed elements self ∧ self.id ∉ (config.rename elements).2.cyclic ∧
      self.id ∉ (config.rename elements).2.suppressed := by
  obtain ⟨named, hheld, hcyclic⟩ := isNamed_of_finalId_ne hself hne
  exact ⟨named, mt mem_plan_cyclic_of_mem_cyclic hcyclic, mt mem_plan_held_of_mem_suppressed hheld⟩

/-- An instance keeps its identifier exactly if it is not to be renamed, or if it has the identifier
already that is made of its name. -/
theorem finalId_eq_self_iff (hself : self ∈ instancesOf elements) :
    (config.batchOf elements).plan.names.finalId self = self.id ↔
      (config.IsNamed elements self → self.id ∉ (config.rename elements).2.cyclic →
        self.id ∉ (config.rename elements).2.suppressed →
        self.id = Composition.idWith self
          (Composition.name
            ((config.batchOf elements).referenceName (config.batchOf elements).plan.names)
            (config.rulesFor self.typeName) self)) := by
  constructor
  · intro hkept named hcyclic hsuppressed
    rw [← finalId_eq_idWith named hcyclic hsuppressed, hkept]
  · intro h
    by_contra hne
    obtain ⟨named, hcyclic, hsuppressed⟩ := unreported_of_finalId_ne hself hne
    exact hne ((finalId_eq_idWith named hcyclic hsuppressed).trans
      (h named hcyclic hsuppressed).symm)

/-- A listed rename is that of an instance that ends with another identifier, made of a name that can
be used unless the instance contributes nothing. -/
theorem exists_of_mem_renamed {pair : ElementId × ElementId}
    (h : pair ∈ (config.rename elements).2.renamed) :
    ∃ self ∈ instancesOf elements, self.id = pair.1 ∧
      (config.batchOf elements).plan.names.finalId self ≠ self.id ∧
      ∃ name, pair.2 = .ofInstance pair.1.adapter pair.1.typeName name ∧
        (UsableName name ∨ ContributesMarks
          ((config.batchOf elements).referenceName (config.batchOf elements).plan.names)
          (config.rulesFor self.typeName) self) := by
  obtain ⟨rename, hrename, rfl⟩ := List.mem_map.1 h
  obtain ⟨self, hself, hne, rfl⟩ := NamingPlan.mem_renames_iff.1 hrename
  obtain ⟨named, hcyclic, hsuppressed⟩ := unreported_of_finalId_ne hself hne
  refine ⟨self, hself, rfl, hne, _, finalId_eq_idWith named hcyclic hsuppressed, ?_⟩
  by_cases marks : ContributesMarks ((config.batchOf elements).referenceName
      (config.batchOf elements).plan.names) (config.rulesFor self.typeName) self
  · exact .inr marks
  · exact .inl (Composition.usableName_name marks)

/-- Elements become others by new names that can be used, and instances that contribute nothing to a
name keep their identifier. -/
structure RenamesUsably (config : NamingConfig) (elements after : List Element)
    (report : NamingReport) (nameOf : Reference → String) : Prop where
  /-- A new identifier is that of a top-level instance with a usable name. -/
  usable : ∀ pair ∈ report.renamed, ∃ name,
    pair.2 = .ofInstance pair.1.adapter pair.1.typeName name ∧ UsableName name
  /-- An instance that contributes nothing but dots and `_` keeps its identifier. -/
  kept : ∀ (k : Nat) (self : Instance), elements[k]? = some (.ofInstance self) →
    ContributesMarks nameOf (config.rulesFor self.typeName) self →
    ∃ ended : Instance, after[k]? = some (.ofInstance ended) ∧ ended.id = self.id

/-- Under valid rules naming succeeds, and each new identifier is that of a top-level instance of the
same type, with a usable name if the instance contributes anything but dots and `_`. All instances
are renamed usably exactly if each one that is to be renamed, and contributes nothing else, has the
identifier already that is made of its text. -/
theorem resolve_renamesUsably_iff (valid : config.check = .ok ()) (elements : List Element) :
    ∃ (after : List Element) (report : NamingReport),
      config.resolve elements = .ok (after, report) ∧
      ∃ nameOf : Reference → String, EndNames elements after nameOf ∧
        (∀ pair ∈ report.renamed, ∃ self ∈ instancesOf elements, self.id = pair.1 ∧
          ∃ name, pair.2 = .ofInstance pair.1.adapter pair.1.typeName name ∧
            (UsableName name ∨ ContributesMarks nameOf (config.rulesFor self.typeName) self)) ∧
        (config.RenamesUsably elements after report nameOf ↔
          ∀ self : Instance, config.IsNamed elements self →
            self.id ∉ report.cyclic → self.id ∉ report.suppressed →
            ContributesMarks nameOf (config.rulesFor self.typeName) self →
            self.id = .ofInstance self.id.adapter self.id.typeName
              (usableText (joinedText nameOf (config.rulesFor self.typeName) self) self.id.name)) := by
  refine ⟨_, _, resolve_eq_ok valid elements, _, endNames_referenceName, ?_, ?_⟩
  · intro pair hpair
    obtain ⟨self, hself, hold, -, hname⟩ := exists_of_mem_renamed hpair
    exact ⟨self, hself, hold, hname⟩
  constructor
  · intro usably self named hcyclic hsuppressed marks
    obtain ⟨k, hk⟩ := exists_getElem?_of_mem_instancesOf named.1
    obtain ⟨ended, hended, hkept⟩ := usably.kept k self hk marks
    obtain ⟨again, hagain, hid⟩ := getElem?_rename_ofInstance config hk
    obtain rfl := Element.ofInstance.inj (Option.some.inj (hended.symm.trans hagain))
    rw [hid, finalId_eq_self_iff named.1] at hkept
    rw [← Composition.name_eq_usableText]
    exact hkept named hcyclic hsuppressed
  · intro h
    have hkept {self : Instance} (hself : self ∈ instancesOf elements)
        (marks : ContributesMarks ((config.batchOf elements).referenceName
          (config.batchOf elements).plan.names) (config.rulesFor self.typeName) self) :
        (config.batchOf elements).plan.names.finalId self = self.id := by
      rw [finalId_eq_self_iff hself, Composition.name_eq_usableText]
      exact fun named hcyclic hsuppressed => h self named hcyclic hsuppressed marks
    constructor
    case usable =>
      -- An instance that contributes nothing keeps its identifier, so it is not listed.
      intro pair hpair
      obtain ⟨self, hself, -, hne, name, hname, husable | marks⟩ := exists_of_mem_renamed hpair
      · exact ⟨name, hname, husable⟩
      · exact absurd (hkept hself marks) hne
    case kept =>
      intro k self hk marks
      obtain ⟨ended, hended, hid⟩ := getElem?_rename_ofInstance config hk
      exact ⟨ended, hended, hid.trans (hkept (mem_instancesOf_of_getElem? hk) marks)⟩

/-- An instance with a title of two words and a number. -/
def titled : List Element :=
  [.ofInstance (.declare "a" "t" "x" [("n", .string "Book 1.2")])]

/-- An instance with a title is renamed, to a name that can be used. -/
theorem resolve_renamesUsably_iff_titled :
    fieldRules.check = .ok () ∧
      ∃ (after : List Element) (report : NamingReport),
        fieldRules.resolve titled = .ok (after, report) ∧
        report.renamed = [(.ofInstance "a" "t" "x", .ofInstance "a" "t" "Book 1_2")] ∧
        ∃ nameOf : Reference → String, EndNames titled after nameOf ∧
          fieldRules.RenamesUsably titled after report nameOf := by
  have valid : fieldRules.check = .ok () := by decide
  obtain ⟨after, report, hresolve, nameOf, names, -, hiff⟩ := resolve_renamesUsably_iff valid titled
  have hreport : (fieldRules.rename titled).2 = report :=
    congrArg Prod.snd (Except.ok.inj ((resolve_eq_ok valid _).symm.trans hresolve))
  refine ⟨valid, after, report, hresolve, ?_, nameOf, names, hiff.2 fun self named _ _ marks => ?_⟩
  · rw [← hreport]
    decide +kernel
  · obtain rfl := List.mem_singleton.1 named.1
    -- The title has letters.
    have htext : OnlyMarks "Book 1.2" := marks.fields ⟨true, "n"⟩ List.mem_cons_self
    exact absurd (htext 'B' (by decide +kernel)) (by decide)

/-- Two instances that contribute nothing: one with a dot in its field, and one below another
instance, with a `_`. -/
def unspoken : List Element :=
  [.ofInstance (.declare "a" "t" "x" [("n", .string ".")]),
    .ofInstance ⟨⟨"a", "t", .inst, ["x", "y"]⟩, [("n", .string "_")], []⟩]

/-- The first one is renamed to a name of a single `_`, and the second one to the last part of its
identifier. -/
theorem not_renamesUsably_unspoken :
    fieldRules.check = .ok () ∧
      ∃ (after : List Element) (report : NamingReport),
        fieldRules.resolve unspoken = .ok (after, report) ∧
        report.renamed = [(.ofInstance "a" "t" "x", .ofInstance "a" "t" "_"),
          (⟨"a", "t", .inst, ["x", "y"]⟩, .ofInstance "a" "t" "y")] ∧
        ∀ nameOf : Reference → String, ¬ fieldRules.RenamesUsably unspoken after report nameOf := by
  have valid : fieldRules.check = .ok () := by decide
  have hrenamed : (fieldRules.rename unspoken).2.renamed =
      [(.ofInstance "a" "t" "x", .ofInstance "a" "t" "_"),
        (⟨"a", "t", .inst, ["x", "y"]⟩, .ofInstance "a" "t" "y")] := by decide +kernel
  refine ⟨valid, (fieldRules.rename unspoken).1, (fieldRules.rename unspoken).2,
    resolve_eq_ok valid _, hrenamed, fun nameOf usably => ?_⟩
  obtain ⟨name, hname, -, c, hc, hne⟩ :=
    usably.usable (.ofInstance "a" "t" "x", .ofInstance "a" "t" "_")
      (by rw [hrenamed]; exact List.mem_cons_self)
  obtain rfl : "_" = name := List.singleton_inj.1 (congrArg ElementId.parts hname)
  exact hne (List.mem_singleton.1 hc)

end NamingConfig

end ElementCatalog
