import ElementCatalog.Proofs.Element.Place
import ElementCatalog.Proofs.Value.Walk

/-!
# The walk through an instance

A walk through an instance visits the references of its field values and then those of its
annotations (`Instance.references`). It visits each of them once and in pre-order, and what it says
about a place leads back there (`Instance.walks_references`).

## Main definitions

* `Instance.Holds`: what paths lead to;
* `Instance.Walks`: all references are visited, each once and in order;
* `Instance.LeadsBack`: a path leads to a reference, whether it is looked up, written to or taken as
  text.
-/

namespace ElementCatalog.Instance

variable {self after : Instance} {path : ValuePath} {reference : Reference} {part new : Value}

/-- The path leads from the instance to the reference, outside snapshots. -/
def Holds (self : Instance) (path : ValuePath) (reference : Reference) : Prop :=
  (Value.map (self.valuesOf path.start)).Holds path.segments reference

/-- In a well-formed instance the order of places goes one way only. -/
theorem Precedes.asymm {a b : ValuePath} (h : self.Precedes a b) (wellFormed : self.WellFormed) :
    ¬ self.Precedes b a := by
  cases h with
  | sections =>
    intro hback
    cases hback
  | within inner =>
    intro hback
    cases hback with
    | within back => exact inner.asymm (wellFormed _) back

/-! ## What a walk visits -/

/-- A walk through an instance visits what it holds. -/
structure Walks (holder : Instance) (visited : List (ValuePath × Reference)) : Prop where
  /-- Exactly the references that the instance holds are visited. -/
  mem_iff : ∀ path reference, (path, reference) ∈ visited ↔ holder.Holds path reference
  /-- No place is visited twice. -/
  nodup_paths : (visited.map Prod.fst).Nodup
  /-- The places are visited in their order. -/
  ordered : visited.Pairwise fun a b => holder.Precedes a.1 b.1

/-- The references of an instance are those that it holds. -/
theorem mem_references_iff_holds :
    (path, reference) ∈ self.references ↔ self.Holds path reference :=
  mem_references_iff.trans Value.mem_references_iff_holds

/-- The references of a section come in pre-order. -/
theorem pairwise_referencesIn (self : Instance) (start : Section) :
    (self.referencesIn start).Pairwise fun a b => self.Precedes a.1 b.1 :=
  List.pairwise_map.2 ((Value.pairwise_references _).imp fun h => .within h)

/-- The references of an instance come in the order of their places. -/
theorem pairwise_references (self : Instance) :
    self.references.Pairwise fun a b => self.Precedes a.1 b.1 := by
  rw [references_eq]
  refine List.pairwise_append.2
    ⟨self.pairwise_referencesIn .value, self.pairwise_referencesIn .annotations, ?_⟩
  intro a ha b hb
  obtain ⟨inner, -, rfl⟩ := List.mem_map.1 ha
  obtain ⟨inner', -, rfl⟩ := List.mem_map.1 hb
  exact .sections

/-- In a well-formed instance no two references have one place. -/
theorem nodup_paths (wellFormed : self.WellFormed) : (self.references.map Prod.fst).Nodup := by
  refine List.pairwise_map.2 (self.pairwise_references.imp fun {a b} hbefore heq => ?_)
  rw [heq] at hbefore
  exact hbefore.asymm wellFormed hbefore

/-! ## The way back -/

/-- A value is looked up in the map that its path starts from. -/
theorem valueAt?_eq_at? (hpath : path.segments ≠ []) :
    self.valueAt? path = (Value.map (self.valuesOf path.start)).at? path.segments := by
  unfold valueAt?
  match hsegments : path.segments with
  | [] => exact absurd hsegments hpath
  | .index position :: rest => rfl
  | .key name :: rest => rfl

/-- The value that is replaced at a place is the one that is found there. -/
theorem Replaced.valueAt?_eq (replaced : self.Replaced path part new after) :
    self.valueAt? path = some part := by
  obtain ⟨hpath, values, replaced, -⟩ := replaced
  rw [valueAt?_eq_at? hpath]
  exact replaced.at?_eq

/-- A path to a reference has a step. -/
theorem Holds.segments_ne_nil (holds : self.Holds path reference) : path.segments ≠ [] := by
  intro hnil
  rw [Holds, hnil] at holds
  cases holds

/-- In a well-formed instance the reference that a path leads to is found there. -/
theorem Holds.valueAt?_eq (holds : self.Holds path reference) (wellFormed : self.WellFormed) :
    self.valueAt? path = some reference.toValue := by
  rw [valueAt?_eq_at? holds.segments_ne_nil]
  exact Value.Holds.at?_eq holds (wellFormed _)

/-- A path leads to a reference that an instance holds, and to nothing else. -/
structure LeadsBack (holder : Instance) (path : ValuePath) (reference : Reference) : Prop where
  /-- The reference is found at the path. -/
  valueAt : holder.valueAt? path = some reference.toValue
  /-- A change at the path is a change of the reference, at its place. -/
  updateAt : ∀ (change : Value → Option Value) (after : Instance),
    holder.updateAt? change path = some after ↔
      ∃ new, change reference.toValue = some new ∧
        holder.Replaced path reference.toValue new after
  /-- Anything can be put at the place. -/
  replaceable : ∀ new, ∃ after, holder.Replaced path reference.toValue new after
  /-- If the path starts from the field values and its keys have no dots, then the reference is
  found at the path with dots between its steps. Positions fit 64 bits, as they do in any list that
  can be held. -/
  find : path.start = .value → (∀ name, .key name ∈ path.segments → Dotted.DotFree name) →
    (∀ position : Nat, .index position ∈ path.segments → position < Number.intBound) →
    ValueMap.find? holder.value (Dotted.join (path.segments.map PathSegment.text)) =
      some reference.toValue

/-- In a well-formed instance the path to a reference leads back to it. -/
theorem Holds.leadsBack (holds : self.Holds path reference) (wellFormed : self.WellFormed) :
    self.LeadsBack path reference := by
  have hvalue := holds.valueAt?_eq wellFormed
  constructor
  case valueAt => exact hvalue
  case updateAt =>
    intro change after
    rw [updateAt?_eq_some_iff]
    constructor
    · rintro ⟨part, new, replaced, hchange⟩
      -- What is replaced is what is found, so it is the reference.
      obtain rfl := Option.some.inj (hvalue.symm.trans replaced.valueAt?_eq)
      exact ⟨new, hchange, replaced⟩
    · rintro ⟨new, hchange, replaced⟩
      exact ⟨_, new, replaced, hchange⟩
  case replaceable =>
    exact exists_replaced wellFormed (mem_references_iff_holds.2 holds)
  case find =>
    intro hstart keys fits
    rw [valueAt?_eq_at? holds.segments_ne_nil, hstart] at hvalue
    exact ValueMap.find?_join holds.segments_ne_nil keys fits hvalue

/-- A walk through a well-formed instance visits all references that it holds, each once, the field
values before the annotations and in pre-order; and the path that is visited with a reference leads
back to it. -/
theorem walks_references (wellFormed : self.WellFormed) :
    self.Walks self.references ∧
      ∀ placed ∈ self.references, self.LeadsBack placed.1 placed.2 := by
  constructor
  · exact ⟨fun path reference => mem_references_iff_holds, nodup_paths wellFormed,
      self.pairwise_references⟩
  · intro placed hplaced
    exact (mem_references_iff_holds.1 hplaced).leadsBack wellFormed

/-- An instance with references in a list of a list and under an empty key, the latter with a
reference in its snapshot, and with a parent. -/
def nested : Instance where
  id := .ofInstance "a" "t" "x"
  value := [("0", .list [.list [.ofTarget (.ofInstance "a" "u" "y")],
    .map [("", .reference (.ofInstance "a" "u" "z") (some (.ofTarget (.ofType "a" "u"))))]])]
  annotations := [(parentKey, .list [.ofTarget (.ofInstance "a" "s" "p")])]

/-- No map of the instance has a key twice. -/
theorem wellFormed_nested : nested.WellFormed := by
  have target := Value.wellFormed_ofTarget
  have one {key : String} {value : Value} (h : value.WellFormed) :
      (Value.map [(key, value)]).WellFormed := by
    refine .map (List.nodup_singleton key) ?_
    simpa using h
  intro start
  cases start with
  | value =>
    refine one (.list ?_)
    simp only [List.forall_mem_cons, List.not_mem_nil, IsEmpty.forall_iff, implies_true, and_true]
    refine ⟨.list (by simpa using target _), one (.reference ?_)⟩
    simpa using target _
  | annotations => exact one (.list (by simpa using target _))

/-- The three references outside the snapshot are visited, and the dotted path to the one under the
empty key ends with a dot. -/
theorem walks_references_nested :
    nested.WellFormed ∧ nested.Walks nested.references ∧
      nested.references.map (fun placed => placed.1.text) =
        ["value.0.0.0", "value.0.1.", "annotation._parent.0"] ∧
      ValueMap.find? nested.value "0.1." =
        some (.reference (.ofInstance "a" "u" "z") (some (.ofTarget (.ofType "a" "u")))) := by
  obtain ⟨walks, back⟩ := walks_references wellFormed_nested
  refine ⟨wellFormed_nested, walks, by decide +kernel, ?_⟩
  have leads := back (⟨.value, [.key "0", .index 1, .key ""]⟩,
    ⟨.ofInstance "a" "u" "z", some (.ofTarget (.ofType "a" "u"))⟩)
    (.tail _ List.mem_cons_self)
  have hpath : Dotted.join ([.key "0", .index 1, .key ""].map PathSegment.text) = "0.1." := by
    decide +kernel
  rw [← hpath]
  refine leads.find rfl (fun name hname => ?_) (fun position hposition => ?_)
  · have hkeys : name = "0" ∨ name = "" := by simpa using hname
    rcases hkeys with rfl | rfl <;> decide
  · have hone : position = 1 := by simpa using hposition
    rw [hone]
    decide

end ElementCatalog.Instance
