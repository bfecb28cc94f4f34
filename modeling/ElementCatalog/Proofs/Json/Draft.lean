import ElementCatalog.Proofs.Json.Token
import ElementCatalog.Reading.Draft

/-!
# Reading a written document

A text that is written for a document is read as that document, with nothing wrong in it and nothing
behind it (`Document.ofText_render`). The state machine that reads tokens goes from the state in
front of a value to the state behind it with the tokens of the value, whatever containers are open
around it (`State.run_toTokens`).
-/

namespace ElementCatalog.Json

mutual

/-- A document as a draft in which nothing is wrong. -/
def toDraft : Json → Draft
  | null => .atom .null
  | bool value => .atom (.bool value)
  | number value => .atom (.number value)
  | string value => .atom (.string value)
  | list items => .list (itemDrafts items) .closed
  | object members => .object (memberDrafts members) .closed

/-- Items as drafts. -/
def itemDrafts : List Json → List Draft
  | [] => []
  | item :: rest => toDraft item :: itemDrafts rest

/-- Members as drafts. -/
def memberDrafts : List (String × Json) → List (Key × Draft)
  | [] => []
  | (key, value) :: rest => (.ok key, toDraft value) :: memberDrafts rest

end

namespace State

/-- Where an item or the end of a list can come, the first token of a value begins an item. -/
theorem run_beforeItem (tree : Json) (outer : List Frame) (rest : List Token) :
    run (.beforeItem outer) (tree.toTokens ++ rest) =
      run (.beforeValue (.list [] :: outer)) (tree.toTokens ++ rest) := by
  cases tree <;> rfl

mutual

/-- The tokens of a document are read as the document. -/
theorem run_toTokens (outer : List Frame) (rest : List Token) : ∀ tree : Json,
    run (.beforeValue outer) (tree.toTokens ++ rest) = run (.behind tree.toDraft outer) rest
  | null | bool _ | number _ | string _ | list [] | object [] => rfl
  | list (item :: items) => by
    -- The opening bracket, the first item, and the others with the closing bracket.
    calc run (.beforeValue outer) ((list (item :: items)).toTokens ++ rest)
        = run (.beforeItem outer) (item.toTokens ++
            ((itemTokens items).flatMap (.comma :: ·) ++ .closeList :: rest)) := by
          simp only [toTokens, itemTokens, separated, List.cons_append, List.append_assoc,
            List.nil_append]
          rfl
      _ = run (.behind item.toDraft (.list [] :: outer))
            ((itemTokens items).flatMap (.comma :: ·) ++ .closeList :: rest) := by
          rw [run_beforeItem, run_toTokens (.list [] :: outer) _ item]
      _ = run (.behind (list (item :: items)).toDraft outer) rest :=
          run_itemTokens outer rest items [] item.toDraft
  | object ((key, value) :: members) => by
    calc run (.beforeValue outer) ((object ((key, value) :: members)).toTokens ++ rest)
        = run (.beforeValue (.object [] (.ok key) :: outer)) (value.toTokens ++
            ((memberTokens members).flatMap (.comma :: ·) ++ .closeObject :: rest)) := by
          simp only [toTokens, memberTokens, separated, List.cons_append, List.append_assoc,
            List.nil_append]
          rfl
      _ = run (.behind value.toDraft (.object [] (.ok key) :: outer))
            ((memberTokens members).flatMap (.comma :: ·) ++ .closeObject :: rest) := by
          rw [run_toTokens (.object [] (.ok key) :: outer) _ value]
      _ = run (.behind (object ((key, value) :: members)).toDraft outer) rest :=
          run_memberTokens outer rest members [] (.ok key) value.toDraft

/-- Behind an item, the other items and the end of the list are read. -/
theorem run_itemTokens (outer : List Frame) (rest : List Token) :
    ∀ (items : List Json) (done : List Draft) (last : Draft),
      run (.behind last (.list done :: outer))
          ((itemTokens items).flatMap (.comma :: ·) ++ .closeList :: rest) =
        run (.behind (.list (done.reverse ++ last :: itemDrafts items) .closed) outer) rest
  | [], done, last => by
    rw [itemDrafts, ← List.reverse_cons]
    rfl
  | item :: items, done, last => by
    calc run (.behind last (.list done :: outer))
          ((itemTokens (item :: items)).flatMap (.comma :: ·) ++ .closeList :: rest)
        = run (.beforeValue (.list (last :: done) :: outer)) (item.toTokens ++
            ((itemTokens items).flatMap (.comma :: ·) ++ .closeList :: rest)) := by
          simp only [itemTokens, List.flatMap_cons, List.cons_append, List.append_assoc]
          rfl
      _ = run (.behind item.toDraft (.list (last :: done) :: outer))
            ((itemTokens items).flatMap (.comma :: ·) ++ .closeList :: rest) := by
          rw [run_toTokens (.list (last :: done) :: outer) _ item]
      _ = run (.behind (.list (done.reverse ++ last :: itemDrafts (item :: items)) .closed) outer)
            rest := by
          rw [run_itemTokens outer rest items (last :: done) item.toDraft, itemDrafts,
            List.reverse_cons, List.append_assoc, List.singleton_append]

/-- Behind a member, the other members and the end of the object are read. -/
theorem run_memberTokens (outer : List Frame) (rest : List Token) :
    ∀ (members : List (String × Json)) (done : List (Key × Draft)) (key : Key) (last : Draft),
      run (.behind last (.object done key :: outer))
          ((memberTokens members).flatMap (.comma :: ·) ++ .closeObject :: rest) =
        run (.behind (.object (done.reverse ++ (key, last) :: memberDrafts members) .closed) outer)
          rest
  | [], done, key, last => by
    rw [memberDrafts, ← List.reverse_cons]
    rfl
  | (next, value) :: members, done, key, last => by
    calc run (.behind last (.object done key :: outer))
          ((memberTokens ((next, value) :: members)).flatMap (.comma :: ·) ++ .closeObject :: rest)
        = run (.beforeValue (.object ((key, last) :: done) (.ok next) :: outer)) (value.toTokens ++
            ((memberTokens members).flatMap (.comma :: ·) ++ .closeObject :: rest)) := by
          simp only [memberTokens, List.flatMap_cons, List.cons_append, List.append_assoc]
          rfl
      _ = run (.behind value.toDraft (.object ((key, last) :: done) (.ok next) :: outer))
            ((memberTokens members).flatMap (.comma :: ·) ++ .closeObject :: rest) := by
          rw [run_toTokens (.object ((key, last) :: done) (.ok next) :: outer) _ value]
      _ = run (.behind (.object (done.reverse ++
            (key, last) :: memberDrafts ((next, value) :: members)) .closed) outer) rest := by
          rw [run_memberTokens outer rest members ((key, last) :: done) (.ok next) value.toDraft,
            memberDrafts, List.reverse_cons, List.append_assoc, List.singleton_append]

end

end State

/-- A document reads back from its text in a layout that puts nothing but blanks between the
tokens. -/
theorem Document.ofText_render {layout : Layout} (hlayout : layout.IsBlank) (tree : Json) :
    Document.ofText (String.ofList (tree.render layout 0)) = ⟨tree.toDraft, false⟩ := by
  have hend : EndsNumber [] := by
    rintro _ ⟨⟩
  have htokens : tokens (String.ofList (tree.render layout 0)) = tree.toTokens := by
    have hlexes := lexes_render hlayout 0 tree [] hend
    rw [List.append_nil] at hlexes
    rw [tokens, String.toList_ofList, hlexes]
    exact List.append_nil _
  rw [Document.ofText, htokens]
  have hrun := State.run_toTokens [] [] tree
  rw [List.append_nil] at hrun
  exact hrun

end ElementCatalog.Json
