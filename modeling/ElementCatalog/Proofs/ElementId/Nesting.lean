import ElementCatalog.ElementId.Nesting
import ElementCatalog.Proofs.ElementId.Grammar

/-!
# Nesting and moving identifiers

An identifier of something below a top-level element splits into that element and a path. The five
kinds of identifiers write the path in different ways, but none of it is lost in the split: two
identifiers whose parts fit their kinds are equal if they split in the same way
(`ElementId.eq_of_topLevel_eq`). So it is enough to know how an identifier splits after it was moved
from one top-level element to another (`ElementId.rebase_eq_some_iff`); that it can be moved back,
and that moving on is moving at once, follow from that.

## Main definitions

* `ElementId.FitsKind`: there are parts exactly if the kind asks for them;
* `ElementId.IsTopLevel`: type definitions, and instances with a single part;
* `ElementId.Nests`, `ElementId.MovesTo`: what nesting and moving do to an identifier.

## Main results

* `ElementId.isWritable_nested_iff`: what lies below a writable identifier along a path is writable
  exactly if no part of the path has a dot;
* `ElementId.rebase_eq_some_iff`: an identifier is moved to the one that lies below the other
  top-level element along the same path;
* `ElementId.nests_and_moves`: the laws of nesting and moving together.
-/

namespace ElementCatalog.ElementId

variable {id other source target moved : ElementId} {path : List String}

/-- There are parts exactly if the kind asks for them. -/
def FitsKind (id : ElementId) : Prop :=
  id.parts = [] ↔ id.kind = .type

/-- The identifier of a type definition or of a whole instance. -/
inductive IsTopLevel : ElementId → Prop
  /-- A type definition. -/
  | ofType (adapter typeName : String) : IsTopLevel (ofType adapter typeName)
  /-- An instance. -/
  | ofInstance (adapter typeName name : String) : IsTopLevel (ofInstance adapter typeName name)

/-! ## Nesting -/

/-- Nesting along two paths is nesting along both of them, one after the other. -/
theorem nested_nested (id : ElementId) (path further : List String) :
    (id.nested path).nested further = id.nested (path ++ further) := by
  by_cases hpath : path = []
  · rw [hpath, nested_nil, List.nil_append]
  · -- The first step leaves no type definition.
    by_cases hkind : id.kind = .type <;> simp [nested, hpath, hkind]

/-- Parts that fit their kind do so after nesting. -/
theorem FitsKind.nested (fits : id.FitsKind) (path : List String) : (id.nested path).FitsKind := by
  by_cases hpath : path = []
  · rwa [hpath, nested_nil]
  · by_cases hkind : id.kind = .type <;> simp [FitsKind, ElementId.nested, hpath, hkind]

/-- What lies below a writable identifier is writable exactly if no part of the path has a dot. -/
theorem isWritable_nested_iff (h : id.IsWritable) :
    (id.nested path).IsWritable ↔ ∀ part ∈ path, Dotted.DotFree part := by
  constructor
  · exact fun nested part hpart => nested.parts_dotFree part (List.mem_append_right _ hpart)
  · intro dotFree
    refine ⟨h.adapter_ne_empty, h.typeName_ne_empty, h.adapter_dotFree, h.typeName_dotFree,
      fun part hpart => ?_, FitsKind.nested h.parts_eq_nil_iff path⟩
    rcases List.mem_append.1 hpart with hpart | hpart
    · exact h.parts_dotFree part hpart
    · exact dotFree part hpart

/-! ## Splitting -/

/-- What lies below an instance splits into the instance and the path. -/
theorem topLevel_nested_ofInstance (adapter typeName name : String) (path : List String) :
    ((ofInstance adapter typeName name).nested path).topLevel =
      (ofInstance adapter typeName name, path) :=
  rfl

/-- What lies below a type definition splits into the type and the path behind the keyword of
annotation values. -/
theorem topLevel_nested_ofType (adapter typeName : String) (hpath : path ≠ []) :
    ((ofType adapter typeName).nested path).topLevel =
      (ofType adapter typeName, "attr" :: path) := by
  simp [nested, ofType, hpath, topLevel, owningType, Kind.keyword]

/-- What lies below a type definition has the keyword of its kind in front of its path. -/
theorem topLevel_of_ne (hinst : id.kind ≠ .inst) (htype : id.kind ≠ .type) :
    id.topLevel = (id.owningType, id.kind.keyword :: id.parts) := by
  obtain ⟨adapter, typeName, kind, parts⟩ := id
  cases kind with
  | inst => exact absurd rfl hinst
  | type => exact absurd rfl htype
  | _ => rfl

/-- Identifiers whose parts fit their kinds are those of type definitions, those of what lies below
an instance, and those of what hangs off a type with a keyword. -/
theorem FitsKind.cases (fits : id.FitsKind) :
    (∃ adapter typeName, id = .ofType adapter typeName) ∨
      (∃ adapter typeName name path, id = (ofInstance adapter typeName name).nested path) ∨
      id.kind ≠ .inst ∧ id.kind ≠ .type := by
  obtain ⟨adapter, typeName, kind, parts⟩ := id
  cases kind with
  | type =>
    obtain rfl : parts = [] := fits.2 rfl
    exact .inl ⟨adapter, typeName, rfl⟩
  | inst =>
    obtain ⟨name, path, rfl⟩ : ∃ name path, parts = name :: path :=
      List.ne_nil_iff_exists_cons.1 fun hparts => nomatch fits.1 hparts
    exact .inr (.inl ⟨adapter, typeName, name, path, rfl⟩)
  | _ => exact .inr (.inr ⟨nofun, nofun⟩)

/-- The identifier that splits into a top-level element and a path. -/
def ofTopLevel (top : ElementId) (path : List String) : ElementId :=
  match top.kind, path with
  | .inst, path => top.nested path
  | _, [] => top
  | _, word :: parts => ⟨top.adapter, top.typeName, (Kind.ofKeyword? word).getD .type, parts⟩

/-- An identifier whose parts fit its kind is put together again from what it splits into. -/
theorem ofTopLevel_topLevel (fits : id.FitsKind) : ofTopLevel id.topLevel.1 id.topLevel.2 = id := by
  rcases fits.cases with ⟨adapter, typeName, rfl⟩ | ⟨adapter, typeName, name, path, rfl⟩ |
    ⟨hinst, htype⟩
  · rfl
  · rfl
  · rw [topLevel_of_ne hinst htype]
    simp [ofTopLevel, owningType, ofType]

/-- Identifiers whose parts fit their kinds are equal if they split in the same way. -/
theorem eq_of_topLevel_eq (fits : id.FitsKind) (fitsOther : other.FitsKind)
    (h : id.topLevel = other.topLevel) : id = other := by
  rw [← ofTopLevel_topLevel fits, h, ofTopLevel_topLevel fitsOther]

/-! ## Moving -/

/-- What lies under a top-level element can be moved to another one of its kind, and lies below that
one along the same path then. -/
theorem exists_rebase_eq_some (fits : id.FitsKind) (htarget : target.IsTopLevel)
    (hkind : target.kind = source.kind) (h : id.topLevel.1 = source) :
    ∃ moved, id.rebase source target = some moved ∧ moved.FitsKind ∧ moved.kind = id.kind ∧
      moved.topLevel = (target, id.topLevel.2) := by
  rw [rebase, if_neg (not_not.2 h)]
  subst h
  rcases fits.cases with ⟨adapter, typeName, rfl⟩ | ⟨adapter, typeName, name, path, rfl⟩ |
    ⟨hinst, htype⟩
  · cases htarget with
    | ofInstance => cases hkind
    | ofType => exact ⟨_, rfl, Iff.intro (fun _ => rfl) fun _ => rfl, rfl, rfl⟩
  · cases htarget with
    | ofType => cases hkind
    | ofInstance => exact ⟨_, rfl, Iff.intro nofun nofun, rfl, rfl⟩
  · rw [topLevel_of_ne hinst htype] at hkind ⊢
    cases htarget with
    | ofInstance => cases hkind
    | ofType adapter typeName =>
      -- What hangs off a type keeps its kind and its parts.
      exact ⟨_, if_neg (by simp [hinst]), fits, rfl, topLevel_of_ne hinst htype⟩

/-- What lies under a top-level element is moved to what lies below the other one along the same
path, and nothing else is moved. -/
theorem rebase_eq_some_iff (fits : id.FitsKind) (htarget : target.IsTopLevel)
    (hkind : target.kind = source.kind) :
    id.rebase source target = some moved ↔
      id.topLevel.1 = source ∧ moved.FitsKind ∧ moved.topLevel = (target, id.topLevel.2) := by
  constructor
  · intro h
    have hsource : id.topLevel.1 = source := by
      by_contra hne
      rw [rebase_eq_none_iff.2 hne] at h
      cases h
    obtain ⟨found, hfound, fitsFound, -, htop⟩ := exists_rebase_eq_some fits htarget hkind hsource
    obtain rfl := Option.some.inj (hfound.symm.trans h)
    exact ⟨hsource, fitsFound, htop⟩
  · rintro ⟨hsource, fitsMoved, htop⟩
    obtain ⟨found, hfound, fitsFound, -, htopFound⟩ :=
      exists_rebase_eq_some fits htarget hkind hsource
    rw [hfound, eq_of_topLevel_eq fitsFound fitsMoved (htopFound.trans htop.symm)]

/-- What nesting does to an identifier that reads back from its full name. -/
structure Nests (id : ElementId) : Prop where
  /-- Nesting along two paths is nesting along both of them, one after the other. -/
  append : ∀ path further, (id.nested path).nested further = id.nested (path ++ further)
  /-- What lies below reads back as well exactly if no part of the path has a dot. -/
  reads_back_iff : ∀ path, parse (id.nested path).fullName = .ok (id.nested path) ↔
    ∀ part ∈ path, Dotted.DotFree part

/-- How an identifier is moved from one top-level element to another of the same kind. -/
structure MovesTo (id source target moved : ElementId) : Prop where
  /-- The kind stays. -/
  kind_eq : moved.kind = id.kind
  /-- It lies below the other element along the same path. -/
  topLevel_eq : moved.topLevel = (target, id.topLevel.2)
  /-- Moving it back gives the identifier again. -/
  back : moved.rebase target source = some id
  /-- Moving it on to a third element is moving it there at once. -/
  onward : ∀ further, further.IsTopLevel → further.kind = target.kind →
    moved.rebase target further = id.rebase source further

/-- An identifier whose parts fit its kind can be moved back and on. -/
theorem movesTo_of_rebase (fits : id.FitsKind) (hsource : source.IsTopLevel)
    (htarget : target.IsTopLevel) (hkind : target.kind = source.kind)
    (h : id.rebase source target = some moved) : MovesTo id source target moved := by
  obtain ⟨htop, fitsMoved, hmoved⟩ := (rebase_eq_some_iff fits htarget hkind).1 h
  constructor
  case kind_eq =>
    obtain ⟨found, hfound, -, hkindFound, -⟩ := exists_rebase_eq_some fits htarget hkind htop
    rwa [← Option.some.inj (hfound.symm.trans h)]
  case topLevel_eq => exact hmoved
  case back =>
    refine (rebase_eq_some_iff fitsMoved hsource hkind.symm).2 ⟨by rw [hmoved], fits, ?_⟩
    rw [hmoved, ← htop]
  case onward =>
    intro further hfurther hkindFurther
    -- Both lie below the third element along the path of the identifier.
    refine Option.ext fun result => ?_
    rw [rebase_eq_some_iff fitsMoved hfurther hkindFurther,
      rebase_eq_some_iff fits hfurther (hkindFurther.trans hkind), hmoved]
    simp [htop]

/-- Nesting an identifier that reads back from its full name adds up, and leads to identifiers that
read back. What lies below a type definition or an instance splits into that element and the path,
which has the keyword of annotation values in front below a type. Exactly what lies under one of two
type definitions, or under one of two instances, can be moved from there to the other; it lies below
that one along the same path then and can be moved back and on. -/
theorem nests_and_moves (h : parse id.fullName = .ok id) :
    id.Nests ∧
      (∀ adapter typeName name path, ((ofInstance adapter typeName name).nested path).topLevel =
        (ofInstance adapter typeName name, path)) ∧
      (∀ adapter typeName path, path ≠ [] → ((ofType adapter typeName).nested path).topLevel =
        (ofType adapter typeName, "attr" :: path)) ∧
      ∀ source target, source.IsTopLevel → target.IsTopLevel → target.kind = source.kind →
        ((∃ moved, id.rebase source target = some moved) ↔ id.topLevel.1 = source) ∧
          ∀ moved, id.rebase source target = some moved → MovesTo id source target moved := by
  have writable := parse_fullName_iff.1 h
  have fits : id.FitsKind := writable.parts_eq_nil_iff
  refine ⟨⟨nested_nested id, fun path => parse_fullName_iff.trans (isWritable_nested_iff writable)⟩,
    topLevel_nested_ofInstance, fun adapter typeName path => topLevel_nested_ofType adapter typeName,
    ?_⟩
  intro source target hsource htarget hkind
  refine ⟨⟨?_, ?_⟩, fun moved => movesTo_of_rebase fits hsource htarget hkind⟩
  · rintro ⟨moved, hmoved⟩
    exact ((rebase_eq_some_iff fits htarget hkind).1 hmoved).1
  · intro htop
    obtain ⟨moved, hmoved, -⟩ := exists_rebase_eq_some fits htarget hkind htop
    exact ⟨moved, hmoved⟩

/-- The identifier of an annotation of a type is moved to another type, to a third one from there,
and back. -/
theorem nests_and_moves_annotation :
    let id : ElementId := ⟨"a", "t", .annotationType, ["label", "en"]⟩
    parse id.fullName = .ok id ∧
      id.nested ["x"] = ⟨"a", "t", .annotationType, ["label", "en", "x"]⟩ ∧
      parse (id.nested ["x"]).fullName = .ok (id.nested ["x"]) ∧
      ∃ moved, id.rebase (ofType "a" "t") (ofType "b" "u") = some moved ∧
        moved.fullName = "b.u.annotation.label.en" ∧
        moved.topLevel = (ofType "b" "u", ["annotation", "label", "en"]) ∧
        moved.rebase (ofType "b" "u") (ofType "a" "t") = some id ∧
        moved.rebase (ofType "b" "u") (ofType "c" "v") =
          some ⟨"c", "v", .annotationType, ["label", "en"]⟩ := by
  intro id
  have h : parse id.fullName = .ok id := by decide +kernel
  obtain ⟨nests, -, -, moves⟩ := nests_and_moves h
  obtain ⟨hiff, hmoves⟩ := moves _ _ (.ofType "a" "t") (.ofType "b" "u") rfl
  obtain ⟨moved, hmoved⟩ := hiff.2 rfl
  have movesTo := hmoves moved hmoved
  refine ⟨h, rfl, (nests.reads_back_iff _).2 (by decide), moved, hmoved, ?_, movesTo.topLevel_eq,
    movesTo.back, movesTo.onward _ (.ofType "c" "v") rfl⟩
  obtain rfl := Option.some.inj hmoved
  decide +kernel

end ElementCatalog.ElementId
