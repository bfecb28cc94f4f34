import ElementCatalog.Text.Alphanumeric

/-!
# Environment variables

A program starts with variables from its surroundings. A variables file adds further ones: each
line gives a name and a value, and a variable that is already there keeps its value. The file is
used up to its first line that cannot be read. No variable can hold the character zero, and a file
that wants one to leaves the program without an environment.

The surroundings hold a variable as an entry `name=value` and find it by what the entry begins
with. So a name can be asked for that goes on into the value, up to an equals sign in it: with an
entry `a=b=c` the name `a=b` stands for `c`.

A value can be quoted. Between single quotes everything stands for itself; elsewhere a backslash
escapes the next character, and a dollar sign with a name, or with a name in braces, stands for the
value of a variable. Quoted text can go over several lines. A hash sign after a blank begins a
comment.
-/

namespace ElementCatalog

/-- Variables with their values. -/
abbrev Environment := List (String × String)

namespace Environment

/-- The entry of a variable, in the form `name=value`. -/
def toEntry : String × String → String
  | (name, value) => name ++ "=" ++ value

/-- What an entry holds for a name: what follows the name and an equals sign. -/
def heldBy? (name entry : String) : Option String :=
  let beginning := name.toList ++ ['=']
  if beginning.isPrefixOf entry.toList then
    some (String.ofList (entry.toList.drop beginning.length))
  else none

/-- An entry holds the value of its variable. -/
theorem heldBy?_toEntry (name value : String) :
    heldBy? name (toEntry (name, value)) = some value := by
  simp [heldBy?, toEntry]

/-- The value of a variable: what the first entry holds that holds something for its name. Nothing
is held for the empty name. -/
def get? (environment : Environment) (name : String) : Option String :=
  if name = "" then none else environment.findSome? fun entry => heldBy? name (toEntry entry)

/-- The variables with a further one, unless it is there, if it can hold its value. -/
def add? (name value : String) (environment : Environment) : Option Environment :=
  if (environment.get? name).isSome then some environment
  else if '\x00' ∈ value.toList then none
  else some (environment ++ [(name, value)])

/-- The variable that an entry of the form `name=value` gives. -/
def ofEntry (entry : String) : String × String :=
  let (name, value) := entry.toList.span (· ≠ '=')
  (String.ofList name, String.ofList value.tail)

/-- The variables that entries of the form `name=value` give. -/
def ofEntries (entries : List String) : Environment :=
  entries.map ofEntry

end Environment

namespace EnvironmentFile

/-- The characters that count as blanks. -/
def isBlank (c : Char) : Bool :=
  [0x20, 0x85, 0xA0, 0x1680, 0x2028, 0x2029, 0x202F, 0x205F, 0x3000].contains c.toNat ||
    (0x09 ≤ c.toNat && c.toNat ≤ 0x0D) || (0x2000 ≤ c.toNat && c.toNat ≤ 0x200A)

/-- Where in a text a line can end. -/
inductive Quoting where
  /-- Outside of quotes, behind something other than a blank. -/
  | plain
  /-- Outside of quotes, behind a blank. -/
  | blank
  /-- Behind a backslash outside of quotes. -/
  | escaped
  /-- Between single quotes. -/
  | single
  /-- Behind a backslash between single quotes. -/
  | singleEscaped
  /-- Between double quotes. -/
  | double
  /-- Behind a backslash between double quotes. -/
  | doubleEscaped
deriving DecidableEq, Repr

namespace Quoting

/-- The state behind a character that stands outside of quotes. -/
def outside (c : Char) : Quoting :=
  if c = '\\' then escaped
  else if c = '"' then double
  else if c = '\'' then single
  else plain

/-- The state behind a character. -/
def next (c : Char) : Quoting → Quoting
  | plain => if isBlank c ∧ c ≠ '\n' ∧ c ≠ '\r' then blank else outside c
  | blank => outside c
  | escaped => plain
  | single => if c = '\\' then singleEscaped else if c = '\'' then plain else single
  | singleEscaped => single
  | double => if c = '\\' then doubleEscaped else if c = '"' then plain else double
  | doubleEscaped => double

/-- The text of a line before a comment that begins in it. -/
def beforeComment? : Quoting → List Char → Option (List Char)
  | _, [] => none
  | state, c :: rest =>
    if state = blank ∧ c = '#' then some []
    else (beforeComment? (state.next c) rest).map (c :: ·)

/-- The state at the end of a line. -/
def atEnd (state : Quoting) (line : List Char) : Quoting :=
  line.foldl (fun state c => state.next c) state

end Quoting

/-- The lines of a text, each with the line break at its end. -/
def linesOf : List Char → List (List Char)
  | [] => []
  | c :: rest =>
    if c = '\n' then [c] :: linesOf rest
    else
      match linesOf rest with
      | [] => [[c]]
      | line :: others => (c :: line) :: others

/-- A line without its line break. -/
def withoutBreak (line : List Char) : List Char :=
  match line.reverse with
  | '\n' :: '\r' :: rest => rest.reverse
  | '\n' :: rest => rest.reverse
  | _ => line

/-- The entries of a file: lines joined as long as a quote is open. What is left open at the end
of the file is no entry, and shown by nothing at the end. -/
def entries (held : List Char) (state : Quoting) : List (List Char) → List (Option (List Char))
  | [] => if state = .plain then [] else [none]
  | line :: rest =>
    if ((held ++ line).dropWhile isBlank).head? = some '#' then some [] :: entries [] .plain rest
    else
      match state.beforeComment? line with
      | some start => some (held ++ start) :: entries [] .plain rest
      | none =>
        if state.atEnd line = .plain then
          some (withoutBreak (held ++ line)) :: entries [] .plain rest
        else entries (held ++ line) (state.atEnd line) rest

/-- Where the reading of a value stands. -/
inductive Mode where
  /-- Outside of quotes. -/
  | plain
  /-- Between single quotes. -/
  | single
  /-- Between double quotes. -/
  | double
  /-- Behind a backslash, between double quotes or not. -/
  | escaped (quoted : Bool)
  /-- In a name behind a dollar sign, given in reverse. -/
  | name (quoted : Bool) (reversed : List Char)
  /-- In a name between braces behind a dollar sign, given in reverse. -/
  | braces (quoted : Bool) (reversed : List Char)
  /-- Behind the blank that ends a value. -/
  | ended
deriving DecidableEq, Repr

namespace Mode

/-- The mode outside of single quotes and names. -/
def within (quoted : Bool) : Mode :=
  if quoted then double else plain

end Mode

/-- Whether a character can stand in a name behind a dollar sign: a letter or digit of any script,
though a line gives a value to names in ASCII only. -/
def isNameChar (c : Char) : Bool :=
  Alphanumeric.isAlphanumeric c

/-- The value of a text in the given mode, behind what was read before. -/
def valueFrom (lookup : String → String) : Mode → List Char → Option (List Char)
  | .plain, [] => some []
  | .ended, [] => some []
  | .escaped false, [] => some []
  | .name false reversed, [] => some (lookup (String.ofList reversed.reverse)).toList
  | _, [] => none
  | mode, c :: rest =>
    match mode with
    | .ended =>
      if c = ' ' ∨ c = '\t' then valueFrom lookup .ended rest
      else if c = '#' then some []
      else none
    | .escaped quoted =>
      -- Of the letters only `n` can follow a backslash, and stands for a line break.
      if c = '\\' ∨ c = '\'' ∨ c = '"' ∨ c = '$' ∨ c = ' ' then
        (valueFrom lookup (.within quoted) rest).map (c :: ·)
      else if c = 'n' then (valueFrom lookup (.within quoted) rest).map ('\n' :: ·)
      else none
    | .single =>
      if c = '\'' then valueFrom lookup .plain rest
      else (valueFrom lookup .single rest).map (c :: ·)
    | .name quoted reversed =>
      -- The first character that cannot belong to the name ends it and stands for itself.
      if isNameChar c then valueFrom lookup (.name quoted (c :: reversed)) rest
      else if c = '{' ∧ reversed = [] then valueFrom lookup (.braces quoted []) rest
      else
        let value := (lookup (String.ofList reversed.reverse)).toList
        if c = '$' then (valueFrom lookup (.name quoted []) rest).map (value ++ ·)
        else (valueFrom lookup (.within quoted) rest).map (value ++ c :: ·)
    | .braces quoted reversed =>
      if c = '}' then
        (valueFrom lookup (.within quoted) rest).map
          ((lookup (String.ofList reversed.reverse)).toList ++ ·)
      else valueFrom lookup (.braces quoted (c :: reversed)) rest
    | .double =>
      if c = '$' then valueFrom lookup (.name true []) rest
      else if c = '"' then valueFrom lookup .plain rest
      else if c = '\\' then valueFrom lookup (.escaped true) rest
      else (valueFrom lookup .double rest).map (c :: ·)
    | .plain =>
      if c = '$' then valueFrom lookup (.name false []) rest
      else if c = '\'' then valueFrom lookup .single rest
      else if c = '"' then valueFrom lookup .double rest
      else if c = '\\' then valueFrom lookup (.escaped false) rest
      else if c = ' ' ∨ c = '\t' then valueFrom lookup .ended rest
      else (valueFrom lookup .plain rest).map (c :: ·)

/-- The name at the beginning of a text, and what comes after it. -/
def nameOf? (text : List Char) : Option (List Char × List Char) :=
  match text with
  | c :: _ =>
    if c.isAlpha ∨ c = '_' then
      some (text.span fun c => c.isAlphanum ∨ c = '_' ∨ c = '.')
    else none
  | [] => none

/-- What comes after an equals sign. -/
def afterEquals? : List Char → Option (List Char)
  | '=' :: rest => some rest
  | _ => none

/-- The name of an entry and the text of its value. The word `export` can stand in front. -/
def splitEntry? (text : List Char) : Option (List Char × List Char) := do
  let (name, rest) ← nameOf? text
  let rest := rest.dropWhile isBlank
  match afterEquals? rest with
  | some value => return (name, value)
  | none =>
    if name = ['e', 'x', 'p', 'o', 'r', 't'] then
      let (name, rest) ← nameOf? rest
      return (name, ← afterEquals? (rest.dropWhile isBlank))
    else none

/-- The variable that an entry gives, or nothing if the entry is empty. -/
def entryOf? (lookup : String → String) (entry : List Char) :
    Option (Option (String × String)) := do
  let text := (entry.reverse.dropWhile isBlank).reverse.dropWhile isBlank
  match text with
  | [] => return none
  | '#' :: _ => return none
  | text =>
    let (name, value) ← splitEntry? text
    let value := value.dropWhile isBlank
    if value.head? = some '#' then return some (String.ofList name, "")
    return some (String.ofList name, String.ofList (← valueFrom lookup .plain value))

/-- The variables with those of entries added, up to the first that cannot be read. The values
that the file itself gives are known as well, by just their names. -/
def addEntries :
    Environment → List (String × String) → List (Option (List Char)) → Option Environment
  | environment, _, [] => some environment
  | environment, _, none :: _ => some environment
  | environment, given, some entry :: rest =>
    let lookup name := ((environment.get? name).or (given.lookup name)).getD ""
    match entryOf? lookup entry with
    | none => some environment
    | some none => addEntries environment given rest
    | some (some (name, value)) => do
      addEntries (← environment.add? name value) ((name, value) :: given) rest

/-- The variables with those of a file added, if they can hold their values. -/
def addTo? (environment : Environment) (text : String) : Option Environment :=
  let chars := match text.toList with
    | '\uFEFF' :: rest => rest
    | chars => chars
  addEntries environment [] (entries [] .plain (linesOf chars))

end EnvironmentFile

end ElementCatalog
