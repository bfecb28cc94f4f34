/-!
# Tables of code points

A property that the standard of characters gives by enumeration is kept as a table: the runs of
code points that have the property, each by its first and last code point, in six blocks. A
look-up (`CodeTable.contains`) goes through the runs of one block only.
-/

namespace ElementCatalog

/-- The code points with a property, as runs given by their ends. -/
structure CodeTable where
  /-- The runs below U+1000. -/
  basic : List (Nat × Nat)
  /-- The runs from U+1000 to U+2FFF. -/
  southEast : List (Nat × Nat)
  /-- The runs from U+3000 to U+FFFF. -/
  eastAsian : List (Nat × Nat)
  /-- The runs from U+10000 to U+117FF. -/
  ancient : List (Nat × Nat)
  /-- The runs from U+11800 to U+1FFFF. -/
  symbols : List (Nat × Nat)
  /-- The runs from U+20000 on. -/
  upper : List (Nat × Nat)

namespace CodeTable

/-- The runs that can hold the given code point. -/
def runsFor (table : CodeTable) (code : Nat) : List (Nat × Nat) :=
  if code < 0x1000 then table.basic
  else if code < 0x3000 then table.southEast
  else if code < 0x10000 then table.eastAsian
  else if code < 0x11800 then table.ancient
  else if code < 0x20000 then table.symbols
  else table.upper

/-- Whether a character is in the table. -/
def contains (table : CodeTable) (c : Char) : Bool :=
  (table.runsFor c.toNat).any fun (first, last) => first ≤ c.toNat && c.toNat ≤ last

end CodeTable

end ElementCatalog
