import ElementCatalog.ElementId.FullName
import Mathlib.Data.Set.Function

/-!
# The grammar of full names

Identifiers are the keys of every map, store and document, so it matters which texts stand for one.

## Main definitions

* `ElementId.AreNameSegments`: the segments that the dots of a full name separate.

## Main results

* `ElementId.exists_parse_eq_ok_iff`: exactly the texts with such segments read;
* `ElementId.parse_eq_ok_iff`: a text reads as the writable identifier whose full name it is, and as
  no other;
* `ElementId.parse_eq_unknownKind_iff`: when it is the third segment that is found wrong;
* `ElementId.parse_grammar`: all of this together.
-/

namespace ElementCatalog

namespace Kind

/-- The words that stand for kinds inside a full name. -/
theorem ofKeyword?_eq_none_iff {word : String} :
    ofKeyword? word = none ↔ word ∉ ["type", "field", "instance", "annotation", "attr"] := by
  constructor
  · rintro h hword
    simp only [List.mem_cons, List.not_mem_nil, or_false] at hword
    rcases hword with rfl | rfl | rfl | rfl | rfl <;> cases h
  · intro hword
    unfold ofKeyword?
    split <;> first | rfl | simp at hword

/-- The keyword of a kind other than that of type definitions. -/
theorem keyword_mem {kind : Kind} (h : kind ≠ .type) :
    kind.keyword ∈ ["field", "instance", "annotation", "attr"] := by
  cases kind
  case type => exact absurd rfl h
  all_goals decide

end Kind

namespace ElementId

/-- The segments of a full name: an adapter and a type name, neither of them empty, and then either
nothing or a word for what hangs off the type with at least one name part. -/
inductive AreNameSegments : List String → Prop
  /-- A type definition. -/
  | ofType {adapter typeName : String} (adapter_ne_empty : adapter ≠ "")
      (typeName_ne_empty : typeName ≠ "") : AreNameSegments [adapter, typeName]
  /-- Something else, with the parts of its name. -/
  | ofParts {adapter typeName word part : String} {parts : List String}
      (adapter_ne_empty : adapter ≠ "") (typeName_ne_empty : typeName ≠ "")
      (word_mem : word ∈ ["field", "instance", "annotation", "attr"]) :
      AreNameSegments (adapter :: typeName :: word :: part :: parts)

/-- A writable identifier has the segments of a full name. -/
theorem IsWritable.areNameSegments {id : ElementId} (h : id.IsWritable) :
    AreNameSegments id.nameSegments := by
  obtain ⟨adapter, typeName, kind, parts⟩ := id
  by_cases hkind : kind = .type
  · obtain rfl : parts = [] := h.parts_eq_nil_iff.2 hkind
    rw [nameSegments, if_pos hkind]
    exact .ofType h.adapter_ne_empty h.typeName_ne_empty
  · obtain ⟨part, others, rfl⟩ : ∃ part others, parts = part :: others :=
      List.ne_nil_iff_exists_cons.1 fun hparts => hkind (h.parts_eq_nil_iff.1 hparts)
    rw [nameSegments, if_neg hkind]
    exact .ofParts h.adapter_ne_empty h.typeName_ne_empty (Kind.keyword_mem hkind)

/-- Behind an adapter and a type name, the other segments decide. -/
theorem parse_eq_ofSegments {text adapter typeName : String} {rest : List String}
    (hsplit : Dotted.split text = adapter :: typeName :: rest) (hadapter : adapter ≠ "")
    (htype : typeName ≠ "") : parse text = ofSegments text adapter typeName rest := by
  rw [parse, hsplit]
  exact if_neg (by simp [hadapter, htype])

/-- What reads as an identifier is writable. -/
theorem isWritable_of_parse {text : String} {id : ElementId} (h : parse text = .ok id) :
    id.IsWritable := by
  unfold parse at h
  split at h
  · next adapter typeName rest hsplit =>
    split at h
    · cases h
    · next hne =>
      obtain ⟨hsegments, hparts⟩ := ofSegments_eq_ok h
      -- The segments come from splitting at dots, so none of them holds one.
      have hfree : ∀ part ∈ id.nameSegments, Dotted.DotFree part := fun part hpart =>
        Dotted.dotFree_of_mem_split (hsplit ▸ hsegments ▸ hpart)
      have hadapter : id.adapter = adapter := (List.cons.inj hsegments).1
      have htype : id.typeName = typeName := (List.cons.inj (List.cons.inj hsegments).2).1
      rw [not_or, ← hadapter, ← htype] at hne
      refine ⟨hne.1, hne.2, hfree _ (by simp [nameSegments]), hfree _ (by simp [nameSegments]),
        fun part hpart => hfree part ?_, hparts⟩
      rw [nameSegments]
      split <;> simp [hpart]
  · cases h

/-- A text reads as the writable identifier whose full name it is, and as no other. -/
theorem parse_eq_ok_iff {text : String} {id : ElementId} :
    parse text = .ok id ↔ id.IsWritable ∧ id.fullName = text := by
  constructor
  · exact fun h => ⟨isWritable_of_parse h, fullName_of_parse h⟩
  · rintro ⟨hid, rfl⟩
    exact parse_fullName hid

/-- Exactly the writable identifiers read back from their full names. -/
theorem parse_fullName_iff {id : ElementId} : parse id.fullName = .ok id ↔ id.IsWritable :=
  ⟨isWritable_of_parse, parse_fullName⟩

/-- An empty part is a part: only the adapter and the type name must not be empty. -/
example : parse "a.t.instance." = .ok ⟨"a", "t", .inst, [""]⟩ := by decide

/-- Exactly the texts with the segments of a full name read. -/
theorem exists_parse_eq_ok_iff {text : String} :
    (∃ id, parse text = .ok id) ↔ AreNameSegments (Dotted.split text) := by
  constructor
  · rintro ⟨id, h⟩
    obtain ⟨hid, rfl⟩ := parse_eq_ok_iff.1 h
    rw [split_fullName hid]
    exact hid.areNameSegments
  · intro h
    generalize hsplit : Dotted.split text = segments at h
    cases h with
    | ofType adapter_ne_empty typeName_ne_empty =>
      exact ⟨_, parse_eq_ofSegments hsplit adapter_ne_empty typeName_ne_empty⟩
    | ofParts adapter_ne_empty typeName_ne_empty word_mem =>
      rw [parse_eq_ofSegments hsplit adapter_ne_empty typeName_ne_empty]
      simp only [List.mem_cons, List.not_mem_nil, or_false] at word_mem
      rcases word_mem with rfl | rfl | rfl | rfl <;> exact ⟨_, rfl⟩

/-- Behind an adapter and a type name, an unknown word is found exactly where one stands. -/
theorem ofSegments_eq_unknownKind_iff {text adapter typeName word : String}
    {segments : List String} :
    ofSegments text adapter typeName segments = .error (.unknownKind word) ↔
      ∃ rest, segments = word :: rest ∧
        word ∉ ["type", "field", "instance", "annotation", "attr"] := by
  match segments with
  | [] => simp [ofSegments]
  | first :: parts =>
    rw [ofSegments]
    constructor
    · intro h
      split at h
      · next hnone =>
        cases h
        exact ⟨parts, rfl, Kind.ofKeyword?_eq_none_iff.1 hnone⟩
      · cases h
      · split at h <;> cases h
    · rintro ⟨rest, hsegments, hword⟩
      obtain ⟨rfl, rfl⟩ := List.cons.inj hsegments
      rw [Kind.ofKeyword?_eq_none_iff.2 hword]

/-- The third segment is found wrong exactly if an adapter and a type name stand in front of it and
it is no word for a kind. -/
theorem parse_eq_unknownKind_iff {text word : String} :
    parse text = .error (.unknownKind word) ↔ ∃ adapter typeName rest,
      Dotted.split text = adapter :: typeName :: word :: rest ∧ adapter ≠ "" ∧ typeName ≠ "" ∧
        word ∉ ["type", "field", "instance", "annotation", "attr"] := by
  constructor
  · intro h
    unfold parse at h
    split at h
    · next adapter typeName segments hsplit =>
      split at h
      · cases h
      · next hne =>
        rw [not_or] at hne
        obtain ⟨rest, rfl, hword⟩ := ofSegments_eq_unknownKind_iff.1 h
        exact ⟨adapter, typeName, rest, hsplit, hne.1, hne.2, hword⟩
    · cases h
  · rintro ⟨adapter, typeName, rest, hsplit, hadapter, htype, hword⟩
    rw [parse_eq_ofSegments hsplit hadapter htype]
    exact ofSegments_eq_unknownKind_iff.2 ⟨rest, rfl, hword⟩

/-- Exactly the texts with the segments of a full name read, and each as the one writable identifier
whose full name it is. So writable identifiers have different full names. A text that does not read
is reported for an unknown kind exactly if its third segment stands behind an adapter and a type
name and is no word for a kind, and then for this segment. -/
theorem parse_grammar :
    (∀ text, (∃ id, parse text = .ok id) ↔ AreNameSegments (Dotted.split text)) ∧
      (∀ text id, parse text = .ok id ↔ id.IsWritable ∧ id.fullName = text) ∧
      Set.InjOn fullName {id | id.IsWritable} ∧
      ∀ text word, parse text = .error (.unknownKind word) ↔ ∃ adapter typeName rest,
        Dotted.split text = adapter :: typeName :: word :: rest ∧ adapter ≠ "" ∧ typeName ≠ "" ∧
          word ∉ ["type", "field", "instance", "annotation", "attr"] := by
  refine ⟨fun _ => exists_parse_eq_ok_iff, fun _ _ => parse_eq_ok_iff, fun a ha b hb heq => ?_,
    fun _ _ => parse_eq_unknownKind_iff⟩
  -- Both read from the full name that they have in common.
  have hread : parse a.fullName = .ok b := parse_eq_ok_iff.2 ⟨hb, heq.symm⟩
  exact Except.ok.inj ((parse_fullName ha).symm.trans hread)

end ElementId

end ElementCatalog
