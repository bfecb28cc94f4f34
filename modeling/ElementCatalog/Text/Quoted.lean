import ElementCatalog.Text.Glyph

/-!
# Quoted text

Messages show a text between double quotes, such that the reader sees where it begins and ends
and which characters it holds. Quotes and backslashes get a backslash in front, the common
control characters have a letter, and any other character without a glyph of its own is shown as
its number.
-/

namespace ElementCatalog.Quoted

/-- The lower-case hexadecimal digits of a number. -/
def hexadecimal (n : Nat) : List Char :=
  Nat.toDigits 16 n

/-- How one character is shown between the quotes. -/
def shown (c : Char) : List Char :=
  match c with
  | '\x00' => ['\\', '0']
  | '\t' => ['\\', 't']
  | '\n' => ['\\', 'n']
  | '\r' => ['\\', 'r']
  | '"' => ['\\', '"']
  | '\\' => ['\\', '\\']
  | c =>
    if Glyph.hasOwnGlyph c then [c]
    else ['\\', 'u', '{'] ++ hexadecimal c.toNat ++ ['}']

/-- The text between double quotes. -/
def quote (text : String) : String :=
  String.ofList ('"' :: text.toList.flatMap shown ++ ['"'])

end ElementCatalog.Quoted
