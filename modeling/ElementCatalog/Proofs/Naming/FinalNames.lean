import ElementCatalog.Proofs.Naming.Identifiers

/-!
# The names that instances end with

An instance that is named, and that is neither on a cycle nor held, ends with the name that its
fields and its parent compose, where each reference contributes the name that the instance it
refers to ends with (`NamingConfig.resolve_name_eq`).
-/

namespace ElementCatalog

/-- A way to name references by what naming ends with: a reference to an instance, or to something
below one, has the name that this instance ends with, and any other reference the last part of its
target. -/
structure EndNames (elements after : List Element) (nameOf : Reference → String) : Prop where
  /-- The instance that a reference leads to gives it the name that it ends with. -/
  of_instance : ∀ (reference : Reference) (i : Nat) (self : Instance),
    elements[i]? = some (.ofInstance self) → self.id = reference.topTarget →
    ∃ ended : Instance, after[i]? = some (.ofInstance ended) ∧ nameOf reference = ended.id.name
  /-- A reference that leads to no instance has the last part of its target. -/
  of_missing : ∀ reference : Reference,
    (∀ self ∈ instancesOf elements, self.id ≠ reference.topTarget) →
    nameOf reference = reference.target.name

/-- A reference to an instance has the name of the instance that stands in its place at the end. -/
theorem EndNames.eq_name {elements after : List Element} {nameOf : Reference → String}
    (names : EndNames elements after nameOf) {reference : Reference} {i : Nat}
    {self ended : Instance} (hself : elements[i]? = some (.ofInstance self))
    (htop : self.id = reference.topTarget) (hended : after[i]? = some (.ofInstance ended)) :
    nameOf reference = ended.id.name := by
  obtain ⟨found, hfound, hname⟩ := names.of_instance reference i self hself htop
  obtain rfl : ended = found := by simpa [hended] using hfound
  exact hname

namespace NamingConfig

variable {config : NamingConfig} {elements : List Element}

/-- References are named by what naming ends with if the plan gives them their names. -/
theorem endNames_referenceName : EndNames elements (config.rename elements).1
    ((config.batchOf elements).referenceName (config.batchOf elements).plan.names) where
  of_instance reference i self hself htop := by
    obtain ⟨ended, hended, hid⟩ := getElem?_rename_ofInstance config hself
    refine ⟨ended, hended, ?_⟩
    have hhas : (config.batchOf elements).has reference.topTarget = true :=
      List.any_eq_true.2 ⟨self, mem_instancesOf_of_getElem? hself, by simp [htop]⟩
    rw [Batch.referenceName, if_pos hhas, hid, NameTable.name_finalId, htop]
  of_missing reference hmissing := by
    have hhas : ¬ (config.batchOf elements).has reference.topTarget = true := by
      simpa [Batch.has, batchOf] using hmissing
    rw [Batch.referenceName, if_neg hhas]

/-- An instance whose identifier no other position holds does not share it. -/
theorem isShared_eq_false {position : Nat} {self : Instance}
    (hunique : ∀ j other, elements[j]? = some (.ofInstance other) → other.id = self.id →
      j = position) : (config.batchOf elements).isShared self.id = false := by
  rw [isShared_eq, decide_eq_false_iff_not, Nat.not_lt]
  refine countP_le_one (i := position) fun j element helement hid => ?_
  cases element with
  | ofType definition => cases hid
  | ofInstance other => exact hunique j other helement (by simpa [Element.asInstance?] using hid)

/-- An instance that is named, not on a cycle and not held ends with the identifier that is made of
the name composed of the names in the plan. -/
theorem finalId_eq_usableText {position : Nat} {self : Instance}
    (hself : elements[position]? = some (.ofInstance self))
    (hunique : ∀ j other, elements[j]? = some (.ofInstance other) → other.id = self.id →
      j = position)
    (hnameable : config.isNameable self.typeName = true)
    (hcyclic : self.id ∉ (config.rename elements).2.cyclic)
    (hsuppressed : self.id ∉ (config.rename elements).2.suppressed) :
    (config.batchOf elements).plan.names.finalId self =
      ElementId.ofInstance self.id.adapter self.id.typeName
        (Composition.usableText
          (Composition.joinedText
            ((config.batchOf elements).referenceName (config.batchOf elements).plan.names)
            (config.rulesFor self.typeName) self)
          self.id.name) := by
  have hmem : self ∈ instancesOf elements := mem_instancesOf_of_getElem? hself
  have hid : self.id ∈ (instancesOf elements).map Instance.id := List.mem_map_of_mem hmem
  have hcandidate : self ∈ (config.batchOf elements).candidates :=
    Batch.mem_candidates_iff.2 ⟨hmem, isShared_eq_false hunique, hnameable⟩
  have hacyclic : self.id ∉ (config.batchOf elements).plan.cyclic := fun h =>
    hcyclic (List.mem_filter.2 ⟨hid, decide_eq_true h⟩)
  have hfree : self.id ∉ (config.batchOf elements).plan.held := fun h =>
    hsuppressed (List.mem_filter.2 ⟨hid, decide_eq_true h⟩)
  -- So the instance is named in the last round, by the names of that round.
  have hname := Batch.getElem?_plan_names_eq_some
    (Batch.mem_plan_order_iff.2 ⟨hcandidate, hacyclic⟩) hfree
  rw [NameTable.finalId_eq_idWith hname, Composition.idWith, Batch.nameFor,
    Composition.name_eq_usableText]
  rfl

/-- Under valid rules naming succeeds, and an instance of a type that is named, with an identifier
of its own, neither on a cycle nor held, ends with the identifier that is made of its composed name.
The name is composed of the names that the instances referred to end with. -/
theorem resolve_name_eq (valid : config.check = .ok ()) (elements : List Element) :
    ∃ (after : List Element) (report : NamingReport),
      config.resolve elements = .ok (after, report) ∧
      ∃ nameOf : Reference → String, EndNames elements after nameOf ∧
        ∀ (k : Nat) (self : Instance), elements[k]? = some (.ofInstance self) →
          (∀ j other, elements[j]? = some (.ofInstance other) → other.id = self.id → j = k) →
          config.isNameable self.typeName = true →
          self.id ∉ report.cyclic → self.id ∉ report.suppressed →
          ∃ ended : Instance, after[k]? = some (.ofInstance ended) ∧
            ended.id = ElementId.ofInstance self.id.adapter self.id.typeName
              (Composition.usableText
                (Composition.joinedText nameOf (config.rulesFor self.typeName) self)
                self.id.name) := by
  refine ⟨_, _, resolve_eq_ok valid elements, _, endNames_referenceName, ?_⟩
  intro k self hself hunique hnameable hcyclic hsuppressed
  obtain ⟨ended, hended, hid⟩ := getElem?_rename_ofInstance config hself
  exact ⟨ended, hended,
    hid.trans (finalId_eq_usableText hself hunique hnameable hcyclic hsuppressed)⟩

/-- Rules by which authors are named after their home, and books after their author and title. -/
def libraryRules : NamingConfig :=
  (NamingConfig.standard.withType "author" ⟨[⟨true, "home"⟩], false⟩).withType "book"
    ⟨[⟨true, "author"⟩, ⟨false, "title"⟩], false⟩

/-- An author whose home no element stands for. -/
def author : Instance :=
  .declare "a" "author" "1" [("home", .reference (.ofInstance "a" "city" "Padua") none)]

/-- A book of the author. -/
def book : Instance :=
  .declare "a" "book" "7"
    [("author", .reference (.ofInstance "a" "author" "1") none), ("title", .string "Book 1.2")]

/-- The same rules, with chapters that are named after the book that they are in and their title. -/
def chapterRules : NamingConfig :=
  libraryRules.withType "chapter" ⟨[⟨false, "title"⟩], true⟩

/-- A chapter of the book. -/
def chapter : Instance :=
  (Instance.declare "a" "chapter" "3" [("title", .string "Maps")]).withParents
    [.ofInstance "a" "book" "7"]

/-- The book, its author and its chapter. -/
def collection : List Element :=
  [.ofInstance book, .ofInstance author, .ofInstance chapter]

/-- The name of a book is composed of the name that its author ends with, and the name of its
chapter extends the name that the book ends with. -/
theorem resolve_name_eq_book :
    chapterRules.check = .ok () ∧
      ∃ (after : List Element) (report : NamingReport),
        chapterRules.resolve collection = .ok (after, report) ∧
        (∃ ended : Instance, after[0]? = some (.ofInstance ended) ∧
          ended.id = .ofInstance "a" "book" "Padua_Book 1_2") ∧
        ∃ ended : Instance, after[2]? = some (.ofInstance ended) ∧
          ended.id = .ofInstance "a" "chapter" "Padua_Book 1_2__Maps" := by
  have valid : chapterRules.check = .ok () := by decide
  obtain ⟨after, report, hresolve, nameOf, names, hended⟩ := resolve_name_eq valid collection
  have hreport : (chapterRules.rename collection).2 = report :=
    congrArg Prod.snd (Except.ok.inj ((resolve_eq_ok valid _).symm.trans hresolve))
  have hfree : report.cyclic = [] ∧ report.suppressed = [] := by
    rw [← hreport]
    decide +kernel
  have hunique (k j : Nat) (self other : Instance)
      (hk : collection[k]? = some (.ofInstance self))
      (hj : collection[j]? = some (.ofInstance other))
      (hid : other.id = self.id) : j = k := by
    match k, j, hk, hj with
    | 0, 0, _, _ | 1, 1, _, _ | 2, 2, _, _ => rfl
    | 0, 1, rfl, rfl | 0, 2, rfl, rfl | 1, 0, rfl, rfl | 1, 2, rfl, rfl | 2, 0, rfl, rfl
    | 2, 1, rfl, rfl => exact absurd hid (by decide)
  -- An instance ends with the text that its names compose, and so do the references to it.
  have hname (k : Nat) (self : Instance) (name : String)
      (hk : collection[k]? = some (.ofInstance self))
      (hnameable : chapterRules.isNameable self.typeName = true)
      (htext : Composition.usableText
        (Composition.joinedText nameOf (chapterRules.rulesFor self.typeName) self)
        self.id.name = name) :
      (∃ ended : Instance, after[k]? = some (.ofInstance ended) ∧
        ended.id = .ofInstance self.id.adapter self.id.typeName name) ∧
      ∀ reference : Reference, self.id = reference.topTarget → nameOf reference = name := by
    obtain ⟨ended, hafter, hid⟩ := hended k self hk (hunique k · self · hk) hnameable
      (by simp [hfree]) (by simp [hfree])
    rw [htext] at hid
    refine ⟨⟨ended, hafter, hid⟩, fun reference htop => ?_⟩
    rw [names.eq_name hk htop hafter, hid]
    rfl
  have hcity : nameOf ⟨.ofInstance "a" "city" "Padua", none⟩ = "Padua" :=
    names.of_missing _ (by decide)
  have hauthorText : Composition.joinedText nameOf (chapterRules.rulesFor author.typeName) author =
      "_".intercalate [nameOf ⟨.ofInstance "a" "city" "Padua", none⟩] := rfl
  have hbookText : Composition.joinedText nameOf (chapterRules.rulesFor book.typeName) book =
      "_".intercalate [nameOf ⟨.ofInstance "a" "author" "1", none⟩, "Book 1.2"] := rfl
  have hchapterText :
      Composition.joinedText nameOf (chapterRules.rulesFor chapter.typeName) chapter =
        nameOf ⟨.ofInstance "a" "book" "7", none⟩ ++ "__" ++ "_".intercalate ["Maps"] := rfl
  obtain ⟨-, hauthor⟩ := hname 1 author "Padua" rfl (by decide) (by
    rw [hauthorText, hcity]
    decide +kernel)
  obtain ⟨hbook, hparent⟩ := hname 0 book "Padua_Book 1_2" rfl (by decide) (by
    rw [hbookText, hauthor _ (by decide)]
    decide +kernel)
  obtain ⟨hchapter, -⟩ := hname 2 chapter "Padua_Book 1_2__Maps" rfl (by decide) (by
    rw [hchapterText, hparent _ (by decide)]
    decide +kernel)
  exact ⟨valid, after, report, hresolve, hbook, hchapter⟩

end NamingConfig

end ElementCatalog
