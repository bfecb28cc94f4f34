import ElementCatalog.Json.Basic
import ElementCatalog.Text.Quoted

/-!
# Writing documents

A document is written on one line without spaces (`Json.compact`), or with one item or member on
a line and two spaces of indentation for each level (`Json.pretty`). Both are one printer,
`Json.render`, with a `Layout` that says what stands between the parts.
-/

namespace ElementCatalog

namespace Json

/-- What stands between the parts of a document. -/
structure Layout where
  /-- What stands before an item, a member or a closing bracket at the given depth. -/
  lineBreak : Nat → List Char
  /-- What stands between a key and its value. -/
  colon : List Char

namespace Layout

/-- Everything on one line, without spaces. -/
def compact : Layout where
  lineBreak _ := []
  colon := [':']

/-- One item or member on a line, and two spaces of indentation for each level. -/
def pretty : Layout where
  lineBreak depth := '\n' :: List.replicate (2 * depth) ' '
  colon := [':', ' ']

end Layout

/-- A character inside a string: quotes, backslashes and control characters are escaped. -/
def escaped (c : Char) : List Char :=
  match c with
  | '"' => ['\\', '"']
  | '\\' => ['\\', '\\']
  | '\x08' => ['\\', 'b']
  | '\t' => ['\\', 't']
  | '\n' => ['\\', 'n']
  | '\x0c' => ['\\', 'f']
  | '\r' => ['\\', 'r']
  | c =>
    if c.toNat < 0x20 then
      ['\\', 'u', '0', '0'] ++ (if c.toNat < 0x10 then ['0'] else []) ++ Quoted.hexadecimal c.toNat
    else [c]

/-- A string between its quotes. -/
def stringText (text : String) : List Char :=
  '"' :: text.toList.flatMap escaped ++ ['"']

/-- Texts in brackets with commas between them, each on a line of its own if the layout has
lines. -/
def bracketed (layout : Layout) (depth : Nat) (opening closing : Char) :
    List (List Char) → List Char
  | [] => [opening, closing]
  | first :: rest =>
    opening :: layout.lineBreak (depth + 1) ++ first ++
      rest.flatMap (fun text => ',' :: layout.lineBreak (depth + 1) ++ text) ++
      layout.lineBreak depth ++ [closing]

mutual

/-- The characters of a document that begins at the given depth. -/
def render (layout : Layout) (depth : Nat) : Json → List Char
  | null => "null".toList
  | bool value => (if value then "true" else "false").toList
  | number value => value.text.toList
  | string value => stringText value
  | list items => bracketed layout depth '[' ']' (renderItems layout (depth + 1) items)
  | object members => bracketed layout depth '{' '}' (renderMembers layout (depth + 1) members)

/-- The characters of each item. -/
def renderItems (layout : Layout) (depth : Nat) : List Json → List (List Char)
  | [] => []
  | item :: rest => render layout depth item :: renderItems layout depth rest

/-- The characters of each member. -/
def renderMembers (layout : Layout) (depth : Nat) : List (String × Json) → List (List Char)
  | [] => []
  | (key, value) :: rest =>
    (stringText key ++ layout.colon ++ render layout depth value) ::
      renderMembers layout depth rest

end

/-- The document on one line. -/
def compact (document : Json) : String :=
  String.ofList (document.render .compact 0)

/-- The document on several lines with indentation. -/
def pretty (document : Json) : String :=
  String.ofList (document.render .pretty 0)

end Json

end ElementCatalog
