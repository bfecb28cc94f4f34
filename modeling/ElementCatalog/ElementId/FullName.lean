import ElementCatalog.ElementId.Basic
import ElementCatalog.Text.Dotted
import ElementCatalog.Text.Quoted

/-!
# Full names of identifiers

The written form of an identifier joins its components with dots:

* `adapter.type` for a type definition,
* `adapter.type.kind.part…` for anything else, with at least one part.

`ElementId.fullName` writes it and `ElementId.parse` reads it. A text that reads is the full name
of what it reads as (`fullName_of_parse`), and an identifier in written form, `IsWritable`, reads
back from its full name (`parse_fullName`).
-/

namespace ElementCatalog

/-- Why a text is no identifier. -/
inductive IdError where
  /-- There is no adapter or no type name. -/
  | incomplete (text : String)
  /-- The third segment stands where a kind is written and is none. -/
  | unknownKind (word : String)
  /-- The third segment is the keyword of type definitions, which have no kind segment. -/
  | explicitType (text : String)
  /-- A kind is given and nothing follows it. -/
  | missingName (text : String)
deriving DecidableEq, Repr

namespace IdError

/-- The message shown for a text that is no identifier, with the text and the reason. -/
def invalid (text reason : String) : String :=
  "invalid element id " ++ Quoted.quote text ++ ": " ++ reason

/-- The message shown for the error. -/
def message : IdError → String
  | incomplete text => invalid text "expected at least <adapter>.<type>"
  | unknownKind word => "unknown id type: " ++ word
  | explicitType text => invalid text "type ids have no explicit id type"
  | missingName text => invalid text "missing name after id type"

end IdError

namespace Kind

/-- The kind written with a word. -/
def parse (word : String) : Except IdError Kind :=
  match ofKeyword? word with
  | some kind => .ok kind
  | none => .error (.unknownKind word)

end Kind

namespace ElementId

/-- The segments of the full name: a type definition has no kind segment. -/
def nameSegments (id : ElementId) : List String :=
  id.adapter :: id.typeName ::
    (if id.kind = .type then id.parts else id.kind.keyword :: id.parts)

/-- The dot-joined full name. -/
def fullName (id : ElementId) : String :=
  Dotted.join id.nameSegments

/-- The identifier with the given segments after adapter and type name. -/
def ofSegments (text adapter typeName : String) : List String → Except IdError ElementId
  | [] => .ok (ofType adapter typeName)
  | word :: parts =>
    match Kind.ofKeyword? word with
    | none => .error (.unknownKind word)
    | some .type => .error (.explicitType text)
    | some kind =>
      if parts = [] then .error (.missingName text)
      else .ok ⟨adapter, typeName, kind, parts⟩

/-- The identifier with a full name. -/
def parse (text : String) : Except IdError ElementId :=
  match Dotted.split text with
  | adapter :: typeName :: rest =>
    if adapter = "" ∨ typeName = "" then .error (.incomplete text)
    else ofSegments text adapter typeName rest
  | _ => .error (.incomplete text)

/-- Identifiers that have a written form: no component contains a dot, adapter and type name are
not empty, and there are name parts exactly if the kind asks for them. -/
structure IsWritable (id : ElementId) : Prop where
  adapter_ne_empty : id.adapter ≠ ""
  typeName_ne_empty : id.typeName ≠ ""
  adapter_dotFree : Dotted.DotFree id.adapter
  typeName_dotFree : Dotted.DotFree id.typeName
  parts_dotFree : ∀ part ∈ id.parts, Dotted.DotFree part
  parts_eq_nil_iff : id.parts = [] ↔ id.kind = .type

/-- The keyword of a kind can stand as one segment. -/
theorem keyword_dotFree (kind : Kind) : Dotted.DotFree kind.keyword := by
  cases kind <;> decide

/-- What reads as an identifier has the segments that were read, and parts exactly if its kind asks
for them. -/
theorem ofSegments_eq_ok {text adapter typeName : String} {rest : List String} {id : ElementId}
    (h : ofSegments text adapter typeName rest = .ok id) :
    id.nameSegments = adapter :: typeName :: rest ∧ (id.parts = [] ↔ id.kind = .type) := by
  match rest with
  | [] =>
    cases h
    exact ⟨rfl, Iff.intro (fun _ => rfl) fun _ => rfl⟩
  | word :: parts =>
    rw [ofSegments] at h
    split at h
    · cases h
    · cases h
    · next kind hne hk =>
      split at h
      · cases h
      · next hparts =>
        cases h
        have hw := Kind.ofKeyword?_eq_some_iff.1 hk
        have hkind : kind ≠ .type := hne
        simp [nameSegments, hkind, hw, hparts]

/-- The segments of an identifier read back, provided that its parts fit its kind. -/
theorem ofSegments_of_nameSegments {id : ElementId} (text : String)
    (h : id.parts = [] ↔ id.kind = .type) :
    ofSegments text id.adapter id.typeName
      (if id.kind = .type then id.parts else id.kind.keyword :: id.parts) = .ok id := by
  obtain ⟨adapter, typeName, kind, parts⟩ := id
  simp only at h ⊢
  by_cases hk : kind = .type
  · subst hk
    obtain rfl := h.2 rfl
    rfl
  · have hp : parts ≠ [] := fun hp => hk (h.1 hp)
    rw [if_neg hk, ofSegments, Kind.ofKeyword?_keyword]
    cases kind <;> simp_all

/-- A text that reads as an identifier is the full name of that identifier. -/
theorem fullName_of_parse {text : String} {id : ElementId} (h : parse text = .ok id) :
    id.fullName = text := by
  unfold parse at h
  split at h
  · next adapter typeName rest hs =>
    split at h
    · cases h
    · rw [fullName, (ofSegments_eq_ok h).1, ← hs, Dotted.join_split]
  · cases h

/-- The segments of a text are those of the identifier that it is the full name of. -/
theorem split_fullName {id : ElementId} (h : id.IsWritable) :
    Dotted.split id.fullName = id.nameSegments := by
  refine Dotted.split_join (by simp [nameSegments]) fun part hpart => ?_
  simp only [nameSegments, List.mem_cons] at hpart
  rcases hpart with rfl | rfl | hpart
  · exact h.adapter_dotFree
  · exact h.typeName_dotFree
  · split at hpart
    · exact h.parts_dotFree part hpart
    · rcases List.mem_cons.1 hpart with rfl | hpart
      · exact keyword_dotFree id.kind
      · exact h.parts_dotFree part hpart

/-- A writable identifier reads back from its full name. -/
theorem parse_fullName {id : ElementId} (h : id.IsWritable) : parse id.fullName = .ok id := by
  rw [parse, split_fullName h]
  simp only [nameSegments]
  rw [if_neg (by simp [h.adapter_ne_empty, h.typeName_ne_empty])]
  exact ofSegments_of_nameSegments id.fullName h.parts_eq_nil_iff

end ElementId

end ElementCatalog
