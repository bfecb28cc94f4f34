import ElementCatalog.Json.Basic

/-!
# Words of a document

The text of a document is a sequence of tokens: brackets, commas, colons, strings, and words,
which are numbers and the three names `null`, `true` and `false`.

A text that is no document still has tokens up to the place where nothing more can be made out.
What is wrong with a token depends on what is done with it. Reading a number that is too large or
a string that holds half of a surrogate pair fails, but passing over it does not, and the tokens
after it still count. And someone who takes nothing but strings and objects looks no further than
the first character of anything else. A `Flaw` therefore says what happens in each case, and a token
is the last one if it cannot even be passed over.
-/

namespace ElementCatalog.Json

/-- What is wrong with a text that is no document. -/
inductive Fault where
  /-- The text ends too early. -/
  | truncated
  /-- The text goes on with something else than it can. -/
  | malformed
deriving DecidableEq, Repr

/-- What is wrong with a token. -/
structure Flaw where
  /-- What is found by someone who reads the token. -/
  read : Fault
  /-- What is found by someone who passes over it. Nothing means that this succeeds. -/
  skipped : Option Fault
  /-- What is found by someone who takes nothing but strings and objects. -/
  glanced : Fault
deriving DecidableEq, Repr

namespace Flaw

/-- A flaw that is the same whatever is done with the token. -/
def of (fault : Fault) : Flaw :=
  ⟨fault, some fault, fault⟩

/-- The flaw of a word that the text ends in. -/
def cutShort (skipped : Fault) : Flaw :=
  ⟨.truncated, some skipped, .malformed⟩

end Flaw

/-- A value without parts, or what is wrong with it. -/
inductive Atom where
  /-- The word for nothing. -/
  | null
  /-- A truth value. -/
  | bool (value : Bool)
  /-- A number. -/
  | number (value : Number)
  /-- A text. -/
  | string (value : String)
  /-- Something that stands where a value should and is none. -/
  | flawed (flaw : Flaw)
deriving DecidableEq, Repr

namespace Atom

/-- Whether nothing can be made out behind the value. -/
def isEnd : Atom → Bool
  | flawed flaw => flaw.skipped.isSome
  | _ => false

end Atom

/-- A token of a document. -/
inductive Token where
  /-- An opening square bracket. -/
  | openList
  /-- A closing square bracket. -/
  | closeList
  /-- An opening brace. -/
  | openObject
  /-- A closing brace. -/
  | closeObject
  /-- A comma. -/
  | comma
  /-- A colon. -/
  | colon
  /-- A string, or what is wrong with it. -/
  | quoted (text : Except Flaw String)
  /-- A number or a name, or something that is neither. -/
  | word (atom : Atom)

/-- The characters that can stand between tokens. -/
def isBlank (c : Char) : Bool :=
  c = ' ' || c = '\n' || c = '\t' || c = '\r'

/-! ### Strings -/

/-- A part of a string: a character, or an escaped 16-bit unit. -/
inductive Piece where
  /-- A character, plain or escaped by a letter. -/
  | char (c : Char)
  /-- A unit escaped by its number. -/
  | unit (code : Nat)
deriving DecidableEq, Repr

/-- The value of a hexadecimal digit. -/
def hexValue? (c : Char) : Option Nat :=
  if '0' ≤ c ∧ c ≤ '9' then some (c.toNat - '0'.toNat)
  else if 'a' ≤ c ∧ c ≤ 'f' then some (c.toNat - 'a'.toNat + 10)
  else if 'A' ≤ c ∧ c ≤ 'F' then some (c.toNat - 'A'.toNat + 10)
  else none

/-- The number that four hexadecimal digits stand for. -/
def hexUnit? (a b c d : Char) : Option Nat := do
  return (((← hexValue? a) * 16 + (← hexValue? b)) * 16 + (← hexValue? c)) * 16 + (← hexValue? d)

/-- The character that a letter behind a backslash stands for. -/
def escapeOf? : Char → Option Char
  | '"' => some '"'
  | '\\' => some '\\'
  | '/' => some '/'
  | 'b' => some '\x08'
  | 'f' => some '\x0c'
  | 'n' => some '\n'
  | 'r' => some '\r'
  | 't' => some '\t'
  | _ => none

/-- What is wrong where four digits should come: they need four bytes of text. -/
def missingDigits (rest : List Char) : Fault :=
  if (rest.take 4).foldl (fun bytes c => bytes + c.utf8Size) 0 < 4 then .truncated else .malformed

/-- A string behind its opening quote, as far as it goes. -/
structure StringScan where
  /-- The parts that were made out. -/
  pieces : List Piece
  /-- How many characters they take, with the closing quote. -/
  length : Nat
  /-- What ended the string, if not a closing quote. -/
  fault : Option Fault

namespace StringScan

/-- A string that ends at once. -/
def ended (length : Nat) (fault : Option Fault) : StringScan :=
  ⟨[], length, fault⟩

/-- A further piece in front. -/
def push (piece : Piece) (length : Nat) (scan : StringScan) : StringScan :=
  { scan with pieces := piece :: scan.pieces, length := scan.length + length }

/-- The string that the given characters begin with, behind its opening quote. -/
def ofChars : List Char → StringScan
  | [] => ended 0 (some .truncated)
  | '"' :: _ => ended 1 none
  | '\\' :: rest =>
    match rest with
    | [] => ended 1 (some .truncated)
    | 'u' :: digits =>
      match digits with
      | a :: b :: c :: d :: others =>
        match hexUnit? a b c d with
        | some code => (ofChars others).push (.unit code) 6
        | none => ended 2 (some (missingDigits digits))
      | _ => ended 2 (some (missingDigits digits))
    | letter :: others =>
      match escapeOf? letter with
      | some c => (ofChars others).push (.char c) 2
      | none => ended 1 (some .malformed)
  | c :: rest =>
    if c.toNat < 0x20 then ended 0 (some .malformed) else (ofChars rest).push (.char c) 1

end StringScan

/-- Whether a unit is the first half of a surrogate pair. -/
def isLeading (code : Nat) : Bool :=
  0xD800 ≤ code && code ≤ 0xDBFF

/-- Whether a unit is the second half of a surrogate pair. -/
def isTrailing (code : Nat) : Bool :=
  0xDC00 ≤ code && code ≤ 0xDFFF

/-- The character that two halves of a surrogate pair stand for. -/
def pairOf (leading trailing : Nat) : Char :=
  Char.ofNat (0x10000 + (leading - 0xD800) * 0x400 + (trailing - 0xDC00))

/-- The characters of the pieces, which end with the closing quote or with a fault. Each half of
a surrogate pair needs the other. -/
def textOf (fault : Option Fault) : List Piece → Except Fault (List Char)
  | [] =>
    match fault with
    | none => .ok []
    | some fault => .error fault
  | .char c :: rest => (c :: ·) <$> textOf fault rest
  | .unit code :: rest =>
    -- A second half that no first half stands in front of.
    if isTrailing code then .error .malformed
    else if isLeading code then
      match rest with
      -- The string ends where the second half should come, by its quote or by a fault.
      | [] => .error (fault.getD .malformed)
      | .unit next :: others =>
        if isTrailing next then (pairOf code next :: ·) <$> textOf fault others
        else .error .malformed
      | .char _ :: _ => .error .malformed
    else (Char.ofNat code :: ·) <$> textOf fault rest

namespace StringScan

/-- The text of the string, or what is wrong with it. -/
def text (scan : StringScan) : Except Flaw String :=
  match textOf scan.fault scan.pieces with
  | .ok chars => .ok (String.ofList chars)
  | .error fault => .error ⟨fault, scan.fault, fault⟩

end StringScan

/-! ### Words -/

/-- Whether a character is a decimal digit. -/
def isDigit (c : Char) : Bool :=
  '0' ≤ c && c ≤ '9'

/-- The flaw of a number that stops where a digit should come. -/
def missingDigit : List Char → Flaw
  | [] => .cutShort .malformed
  | _ => .of .malformed

/-- The digits at the beginning, of which there has to be one, and what comes after them. -/
def digits (chars : List Char) : Except Flaw (List Char × List Char) :=
  match chars.takeWhile isDigit with
  | [] => .error (missingDigit chars)
  | found => .ok (found, chars.dropWhile isDigit)

/-- The digits before the point: a zero stands alone. -/
def wholeDigits (chars : List Char) : Except Flaw (List Char × List Char) := do
  let (found, rest) ← digits chars
  match found with
  | '0' :: _ :: _ => throw (.of .malformed)
  | _ => return (found, rest)

/-- The point and the digits after it, if there are. -/
def fractionDigits : List Char → Except Flaw (Option (List Char) × List Char)
  | '.' :: rest => do
    let (found, rest) ← digits rest
    return (some found, rest)
  | rest => .ok (none, rest)

/-- The exponent of ten, if there is one, the number of characters that it takes, and what comes
after it. -/
def exponentDigits (chars : List Char) : Except Flaw (Option Int × Nat × List Char) :=
  match chars with
  | c :: rest =>
    if c = 'e' ∨ c = 'E' then do
      let (sign, rest) := match rest with
        | '+' :: rest => (['+'], rest)
        | '-' :: rest => (['-'], rest)
        | rest => ([], rest)
      let (found, rest) ← digits rest
      let magnitude : Int := Number.ofDigits found
      return (some (if sign = ['-'] then -magnitude else magnitude),
        1 + sign.length + found.length, rest)
    else .ok (none, 0, chars)
  | [] => .ok (none, 0, [])

/-- The number literal that the characters begin with, and how many of them it takes. -/
def literal (chars : List Char) : Except Flaw (Number.Literal × Nat) := do
  let (negative, rest) := match chars with
    | '-' :: rest => (true, rest)
    | rest => (false, rest)
  let (whole, rest) ← wholeDigits rest
  let (fraction, rest) ← fractionDigits rest
  let (exponent, exponentLength, _) ← exponentDigits rest
  let fractionLength := match fraction with
    | none => 0
    | some found => 1 + found.length
  return (⟨negative, whole, fraction, exponent⟩,
    (if negative then 1 else 0) + whole.length + fractionLength + exponentLength)

/-- The number that the characters begin with, and how many of them it takes. A number that is
too large can be passed over. -/
def numberAtom (chars : List Char) : Atom × Nat :=
  match literal chars with
  | .error flaw => (.flawed flaw, 0)
  | .ok (literal, length) =>
    match Number.ofLiteral literal with
    | some value => (.number value, length)
    | none => (.flawed ⟨.malformed, none, .malformed⟩, length)

/-- What is wrong where a name was begun and is not finished. -/
def brokenName : (name chars : List Char) → Flaw
  -- The text ends within the name.
  | _ :: _, [] => .cutShort .truncated
  | a :: name, b :: chars => if a = b then brokenName name chars else .of .malformed
  | [], _ => .of .malformed

/-- The given name, if the characters begin with it, and how many of them it takes. -/
def nameAtom (name : List Char) (atom : Atom) (chars : List Char) : Atom × Nat :=
  if name.isPrefixOf chars then (atom, name.length) else (.flawed (brokenName name chars), 0)

/-- The number or name that the characters begin with, and how many of them it takes. -/
def wordAtom (chars : List Char) : Atom × Nat :=
  match chars with
  | 'n' :: _ => nameAtom ['n', 'u', 'l', 'l'] .null chars
  | 't' :: _ => nameAtom ['t', 'r', 'u', 'e'] (.bool true) chars
  | 'f' :: _ => nameAtom ['f', 'a', 'l', 's', 'e'] (.bool false) chars
  | c :: _ => if c = '-' ∨ isDigit c then numberAtom chars else (.flawed (.of .malformed), 0)
  | [] => (.flawed (.of .truncated), 0)

/-! ### Tokens -/

/-- The tokens of the characters. The first `taken` characters belong to the token before. -/
def tokensAfter (taken : Nat) : List Char → List Token
  | [] => []
  | c :: rest =>
    match taken with
    | taken + 1 => tokensAfter taken rest
    | 0 =>
      -- A token begins here, unless the character is blank.
      if isBlank c then tokensAfter 0 rest
      else
        match c with
        | '[' => .openList :: tokensAfter 0 rest
        | ']' => .closeList :: tokensAfter 0 rest
        | '{' => .openObject :: tokensAfter 0 rest
        | '}' => .closeObject :: tokensAfter 0 rest
        | ',' => .comma :: tokensAfter 0 rest
        | ':' => .colon :: tokensAfter 0 rest
        | '"' =>
          -- Nothing is made out behind a string without its closing quote.
          let scan := StringScan.ofChars rest
          .quoted scan.text ::
            (if scan.fault.isSome then [] else tokensAfter scan.length rest)
        | c =>
          let (atom, length) := wordAtom (c :: rest)
          .word atom :: (if atom.isEnd then [] else tokensAfter (length - 1) rest)

/-- The tokens of a text. -/
def tokens (text : String) : List Token :=
  tokensAfter 0 text.toList

end ElementCatalog.Json
