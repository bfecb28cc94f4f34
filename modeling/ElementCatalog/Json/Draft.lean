import ElementCatalog.Json.Token

/-!
# Documents as far as they can be read

A `Draft` is the tree of a text that need not be a document. Where the text goes wrong the tree
says so, and what stands before that place is there. Someone who looks for a certain shape thus
finds the first thing that is wrong in the order of the text, be it a wrong shape or the text
itself.

`Document.ofText` builds the draft of a text from its tokens, with the containers that are still
open in a list of frames.
-/

namespace ElementCatalog.Json

/-- How a container ends. -/
inductive Ending where
  /-- With its closing bracket. -/
  | closed
  /-- With something that cannot stand there, behind a comma or not. -/
  | broken (afterComma : Bool) (flaw : Flaw)
deriving DecidableEq, Repr

/-- A key of an object. A key that can only be passed over is a fault for who reads it. -/
abbrev Key := Except Fault String

/-- A document as far as its text can be read. -/
inductive Draft where
  /-- A value without parts, or what is wrong with it. -/
  | atom (value : Atom)
  /-- Items in order, and how the list ends. -/
  | list (items : List Draft) (ending : Ending)
  /-- Members in order, and how the object ends. -/
  | object (members : List (Key × Draft)) (ending : Ending)

namespace Draft

/-- Something that stands where a value should and is none. -/
def flawed (fault : Fault) : Draft :=
  atom (.flawed (.of fault))

end Draft

/-- A text as a draft of its first value. -/
structure Document where
  /-- The first value of the text. -/
  root : Draft
  /-- Whether something other than blanks comes after it. -/
  trailing : Bool

/-- A container that is still open, with what it holds so far, the last first. -/
inductive Frame where
  /-- A list, one of whose items is being read. -/
  | list (items : List Draft)
  /-- An object, the value of whose given key is being read. -/
  | object (members : List (Key × Draft)) (key : Key)

namespace Frame

/-- A value put into the containers around it, behind which nothing more can be made out. What
comes after the value is never looked at, so the containers count as closed. -/
def abandon : List Frame → Draft → Draft
  | [], value => value
  | .list items :: outer, value => abandon outer (.list (value :: items).reverse .closed)
  | .object members key :: outer, value =>
    abandon outer (.object ((key, value) :: members).reverse .closed)

end Frame

/-- What can come next. The frames are the containers that are still open. -/
inductive State where
  /-- A value. -/
  | beforeValue (outer : List Frame)
  /-- The first item of a list, or its end. -/
  | beforeItem (outer : List Frame)
  /-- A key, or the end of an object that has no member yet. -/
  | beforeKey (members : List (Key × Draft)) (outer : List Frame)
  /-- The colon behind a key. -/
  | beforeColon (members : List (Key × Draft)) (name : Key) (outer : List Frame)
  /-- What can stand behind a value. -/
  | behind (draft : Draft) (outer : List Frame)

namespace State

/-- The draft of a text that goes wrong, in the given way, where the state is. -/
def broken (fault : Fault) : State → Draft
  | beforeValue (.list items :: outer) =>
    Frame.abandon outer (.list items.reverse (.broken true (.of fault)))
  | beforeValue outer => Frame.abandon outer (.flawed fault)
  | beforeItem outer => Frame.abandon outer (.list [] (.broken false (.of fault)))
  | beforeKey members outer =>
    Frame.abandon outer (.object members.reverse (.broken (!members.isEmpty) (.of fault)))
  | beforeColon members name outer =>
    Frame.abandon outer (.object ((name, .flawed fault) :: members).reverse .closed)
  | behind draft [] => draft
  | behind draft (.list items :: outer) =>
    Frame.abandon outer (.list (draft :: items).reverse (.broken false (.of fault)))
  | behind draft (.object members name :: outer) =>
    Frame.abandon outer (.object ((name, draft) :: members).reverse (.broken false (.of fault)))

/-- The draft of a text that is at its end. -/
def finish (state : State) : Document :=
  ⟨state.broken .truncated, false⟩

/-- The draft of a text that goes on with something that cannot stand there. -/
def refuse (state : State) : Document :=
  match state with
  | behind draft [] => ⟨draft, true⟩
  | state => ⟨state.broken .malformed, false⟩

/-- The state behind a value without parts. -/
def takeAtom (atom : Atom) (outer : List Frame) : Except Document State :=
  if atom.isEnd then .error ⟨Frame.abandon outer (.atom atom), false⟩
  else .ok (behind (.atom atom) outer)

/-- The value without parts that a string is. -/
def stringAtom : Except Flaw String → Atom
  | .ok text => .string text
  | .error flaw => .flawed flaw

/-- The state behind the first token of a value. -/
def takeValue (state : State) (outer : List Frame) : Token → Except Document State
  | .openList => .ok (beforeItem outer)
  | .openObject => .ok (beforeKey [] outer)
  | .quoted text => takeAtom (stringAtom text) outer
  | .word atom => takeAtom atom outer
  | _ => .error state.refuse

/-- The state behind a key. -/
def takeKey (members : List (Key × Draft)) (outer : List Frame) :
    Except Flaw String → Except Document State
  | .ok text => .ok (beforeColon members (.ok text) outer)
  | .error flaw =>
    -- A key that can be passed over is followed by a value like any other.
    if flaw.skipped.isNone then .ok (beforeColon members (.error flaw.read) outer)
    else
      .error
        ⟨Frame.abandon outer (.object members.reverse (.broken (!members.isEmpty) flaw)), false⟩

/-- The state behind a token, or the draft if nothing more can be made out. -/
def step (state : State) (token : Token) : Except Document State :=
  match state, token with
  | beforeValue outer, token => state.takeValue outer token
  -- Only an empty list can end before an item, and only an empty object before a key.
  | beforeItem outer, .closeList => .ok (behind (.list [] .closed) outer)
  | beforeItem outer, token => state.takeValue (.list [] :: outer) token
  | beforeKey [] outer, .closeObject => .ok (behind (.object [] .closed) outer)
  | beforeKey members outer, .quoted text => takeKey members outer text
  | beforeColon members name outer, .colon => .ok (beforeValue (.object members name :: outer))
  | behind draft (.list items :: outer), .comma =>
    .ok (beforeValue (.list (draft :: items) :: outer))
  | behind draft (.list items :: outer), .closeList =>
    .ok (behind (.list (draft :: items).reverse .closed) outer)
  | behind draft (.object members name :: outer), .comma =>
    .ok (beforeKey ((name, draft) :: members) outer)
  | behind draft (.object members name :: outer), .closeObject =>
    .ok (behind (.object ((name, draft) :: members).reverse .closed) outer)
  | state, _ => .error state.refuse

/-- The draft of a text of which the given tokens are left. -/
def run : State → List Token → Document
  | state, [] => state.finish
  | state, token :: rest =>
    match state.step token with
    | .ok next => run next rest
    | .error document => document

end State

/-- The draft of a text. -/
def Document.ofText (text : String) : Document :=
  State.run (.beforeValue []) (tokens text)

end ElementCatalog.Json
