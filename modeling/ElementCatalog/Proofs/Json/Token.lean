import ElementCatalog.Json.Printer
import ElementCatalog.Proofs.Json.Number
import Mathlib.Data.List.Forall2

/-!
# Tokens of a written document

The text that is written for a document has the tokens of the document (`lexes_render`), in any
layout that puts nothing but blanks between them.

A string ends with its quote, but a number ends only where something else begins. So `Lexes`, which
says what the tokens of a text are, is about the text in front of anything that a number cannot go
on with (`EndsNumber`).
-/

namespace ElementCatalog

namespace Json

/-! ## Strings -/

theorem hexValue?_digitChar : ∀ d < 16, hexValue? (Nat.digitChar d) = some d := by
  decide

theorem hexUnit?_digitChar {c d : Nat} (hc : c < 16) (hd : d < 16) :
    hexUnit? '0' '0' (Nat.digitChar c) (Nat.digitChar d) = some (16 * c + d) := by
  have hzero : hexValue? '0' = some 0 := rfl
  simp only [hexUnit?, hzero, hexValue?_digitChar c hc, hexValue?_digitChar d hd,
    Option.bind_eq_bind, Option.bind_some, Option.pure_def, Option.some.injEq]
  omega

/-- The last two digits of an escaped control character stand for its number. -/
theorem hexUnit?_control {n : Nat} (h : n < 0x20) :
    ∃ a b, (if n < 0x10 then ['0'] else []) ++ Quoted.hexadecimal n = [a, b] ∧
      hexUnit? '0' '0' a b = some n := by
  by_cases hn : n < 0x10
  · -- One digit, with a zero in front of it.
    refine ⟨Nat.digitChar 0, Nat.digitChar n, ?_, ?_⟩
    · rw [if_pos hn, Quoted.hexadecimal, Nat.toDigits_of_lt_base hn]
      rfl
    · rw [hexUnit?_digitChar (by decide) hn, Nat.mul_zero, Nat.zero_add]
  · refine ⟨Nat.digitChar (n / 16), Nat.digitChar (n % 16), ?_, ?_⟩
    · rw [if_neg hn, Quoted.hexadecimal, Nat.toDigits_of_base_le (by decide) (by omega),
        Nat.toDigits_of_lt_base (by omega)]
      rfl
    · rw [hexUnit?_digitChar (by omega) (by omega), Nat.div_add_mod]

namespace StringScan

/-- A character that needs no escape is a piece of its own. -/
theorem ofChars_plain {c : Char} (rest : List Char) (hquote : c ≠ '"') (hslash : c ≠ '\\')
    (hcontrol : ¬ c.toNat < 0x20) : ofChars (c :: rest) = (ofChars rest).push (.char c) 1 := by
  rw [ofChars.eq_def]
  split
  · next heq => cases heq
  · next heq => exact absurd (List.cons.inj heq).1 hquote
  · next heq => exact absurd (List.cons.inj heq).1 hslash
  · next heq =>
    cases heq
    exact if_neg hcontrol

/-- A character that is escaped by a letter. -/
theorem ofChars_letter {letter c : Char} (rest : List Char) (h : escapeOf? letter = some c) :
    ofChars ('\\' :: letter :: rest) = (ofChars rest).push (.char c) 2 := by
  have hu : letter ≠ 'u' := by
    rintro rfl
    cases h
  rw [ofChars]
  simp only [h]
  exact hu

/-- A unit that is escaped by its number. -/
theorem ofChars_unit {a b c d : Char} {code : Nat} (rest : List Char)
    (h : hexUnit? a b c d = some code) :
    ofChars ('\\' :: 'u' :: a :: b :: c :: d :: rest) = (ofChars rest).push (.unit code) 6 := by
  simp only [ofChars, h]

/-- An escaped character is one piece, and it is the piece of that character. -/
theorem exists_piece (c : Char) :
    ∃ piece, (∀ rest, ofChars (escaped c ++ rest) = (ofChars rest).push piece (escaped c).length) ∧
      ∀ fault pieces, textOf fault (piece :: pieces) = (c :: ·) <$> textOf fault pieces := by
  unfold escaped
  split
  · exact ⟨.char '"', fun rest => ofChars_letter rest rfl, fun _ _ => rfl⟩
  · exact ⟨.char '\\', fun rest => ofChars_letter rest rfl, fun _ _ => rfl⟩
  · exact ⟨.char '\x08', fun rest => ofChars_letter rest rfl, fun _ _ => rfl⟩
  · exact ⟨.char '\t', fun rest => ofChars_letter rest rfl, fun _ _ => rfl⟩
  · exact ⟨.char '\n', fun rest => ofChars_letter rest rfl, fun _ _ => rfl⟩
  · exact ⟨.char '\x0c', fun rest => ofChars_letter rest rfl, fun _ _ => rfl⟩
  · exact ⟨.char '\r', fun rest => ofChars_letter rest rfl, fun _ _ => rfl⟩
  · next hquote hslash _ _ _ _ _ =>
    by_cases hcontrol : c.toNat < 0x20
    · -- A control character is written as a unit, which is no half of a surrogate pair.
      obtain ⟨a, b, hdigits, hunit⟩ := hexUnit?_control hcontrol
      have htrailing : isTrailing c.toNat = false := by
        simp only [isTrailing, Bool.and_eq_false_iff, decide_eq_false_iff_not]
        omega
      have hleading : isLeading c.toNat = false := by
        simp only [isLeading, Bool.and_eq_false_iff, decide_eq_false_iff_not]
        omega
      refine ⟨.unit c.toNat, fun rest => ?_, fun fault pieces => ?_⟩
      · rw [if_pos hcontrol, List.append_assoc ['\\', 'u', '0', '0'], hdigits]
        exact ofChars_unit rest hunit
      · rw [textOf.eq_def]
        simp only [htrailing, hleading, Char.ofNat_toNat, Bool.false_eq_true, if_false]
    · rw [if_neg hcontrol]
      exact ⟨.char c, fun rest => ofChars_plain rest hquote hslash hcontrol, fun _ _ => rfl⟩

/-- A string that is written up to its closing quote reads back, whatever comes behind it. -/
theorem ofChars_flatMap_escaped (chars rest : List Char) :
    ∃ pieces, ofChars (chars.flatMap escaped ++ '"' :: rest) =
        ⟨pieces, (chars.flatMap escaped).length + 1, none⟩ ∧
      textOf none pieces = .ok chars := by
  induction chars with
  | nil => exact ⟨[], rfl, rfl⟩
  | cons c chars ih =>
    obtain ⟨pieces, hscan, htext⟩ := ih
    obtain ⟨piece, hpush, hchar⟩ := exists_piece c
    refine ⟨piece :: pieces, ?_, ?_⟩
    · rw [List.flatMap_cons, List.append_assoc, hpush, hscan, List.length_append]
      simp only [push, StringScan.mk.injEq, true_and, and_true]
      omega
    · rw [hchar, htext]
      rfl

end StringScan

/-! ## Tokens -/

/-- Token lists with commas between them. -/
def separated : List (List Token) → List Token
  | [] => []
  | first :: rest => first ++ rest.flatMap (.comma :: ·)

mutual

/-- The tokens of a document. -/
def toTokens : Json → List Token
  | null => [.word .null]
  | bool value => [.word (.bool value)]
  | number value => [.word (.number value)]
  | string value => [.quoted (.ok value)]
  | list items => .openList :: separated (itemTokens items) ++ [.closeList]
  | object members => .openObject :: separated (memberTokens members) ++ [.closeObject]

/-- The tokens of each item. -/
def itemTokens : List Json → List (List Token)
  | [] => []
  | item :: rest => toTokens item :: itemTokens rest

/-- The tokens of each member. -/
def memberTokens : List (String × Json) → List (List Token)
  | [] => []
  | (key, value) :: rest => (.quoted (.ok key) :: .colon :: toTokens value) :: memberTokens rest

end

/-- A text has the given tokens, if something stands behind it that ends a number. -/
def Lexes (text : List Char) (tokens : List Token) : Prop :=
  ∀ rest, EndsNumber rest → tokensAfter 0 (text ++ rest) = tokens ++ tokensAfter 0 rest

/-- A layout that puts nothing but blanks between the tokens. -/
structure Layout.IsBlank (layout : Layout) : Prop where
  /-- What stands before an item, a member or a closing bracket. -/
  lineBreak (depth : Nat) : ∀ c ∈ layout.lineBreak depth, Json.isBlank c = true
  /-- What stands between a key and its value. -/
  colon : ∃ blanks, layout.colon = ':' :: blanks ∧ ∀ c ∈ blanks, Json.isBlank c = true

theorem Layout.isBlank_compact : Layout.compact.IsBlank where
  lineBreak _ _ h := absurd h List.not_mem_nil
  colon := ⟨[], rfl, fun _ h => absurd h List.not_mem_nil⟩

theorem Layout.isBlank_pretty : Layout.pretty.IsBlank where
  lineBreak depth c h := by
    rcases List.mem_cons.1 h with rfl | h
    · rfl
    · rw [List.eq_of_mem_replicate h]
      rfl
  colon := ⟨[' '], rfl, by simp [isBlank]⟩

theorem eq_of_isBlank {c : Char} (h : isBlank c = true) :
    ((c = ' ' ∨ c = '\n') ∨ c = '\t') ∨ c = '\r' := by
  simpa only [isBlank, Bool.or_eq_true, decide_eq_true_eq] using h

/-- Blanks are no tokens. -/
theorem tokensAfter_blanks {blanks : List Char} (h : ∀ c ∈ blanks, isBlank c = true)
    (rest : List Char) : tokensAfter 0 (blanks ++ rest) = tokensAfter 0 rest := by
  induction blanks with
  | nil => rfl
  | cons c blanks ih =>
    have hc := eq_of_isBlank (h c List.mem_cons_self)
    have hskip : tokensAfter 0 (c :: (blanks ++ rest)) = tokensAfter 0 (blanks ++ rest) := by
      rcases hc with ((rfl | rfl) | rfl) | rfl <;> rfl
    exact hskip.trans (ih fun c hc => h c (List.mem_cons_of_mem _ hc))

/-- Characters that belong to the token before are passed over. -/
theorem tokensAfter_length (chars rest : List Char) :
    tokensAfter chars.length (chars ++ rest) = tokensAfter 0 rest := by
  induction chars with
  | nil => rfl
  | cons c chars ih => exact ih

/-- The digits and the sign. -/
theorem mem_of_isDigit {c : Char} (h : isDigit c = true) : c ∈ "-0123456789".toList := by
  simp only [isDigit, Bool.and_eq_true, decide_eq_true_eq, Char.le_def, UInt32.le_iff_toNat_le] at h
  have hleast : 48 ≤ c.toNat := h.1
  have hgreatest : c.toNat ≤ 57 := h.2
  have hall : ∀ n < 10, Char.ofNat (48 + n) ∈ "-0123456789".toList := by decide
  have hc := hall (c.toNat - 48) (by omega)
  rwa [show 48 + (c.toNat - 48) = c.toNat by omega, Char.ofNat_toNat] at hc

/-- A number that begins with a minus sign or a digit is one token, and the characters that it takes
belong to it. -/
theorem tokensAfter_number {c : Char} {chars rest : List Char} {value : Number}
    (hc : c ∈ "-0123456789".toList)
    (h : numberAtom (c :: chars ++ rest) = (.number value, (c :: chars).length)) :
    tokensAfter 0 (c :: chars ++ rest) = .word (.number value) :: tokensAfter 0 rest := by
  have hword : tokensAfter 0 (c :: (chars ++ rest)) =
      .word (numberAtom (c :: (chars ++ rest))).1 ::
        (if (numberAtom (c :: (chars ++ rest))).1.isEnd then []
          else tokensAfter ((numberAtom (c :: (chars ++ rest))).2 - 1) (chars ++ rest)) := by
    -- None of these characters begins another token.
    simp only [String.reduceToList, List.mem_cons, List.not_mem_nil, or_false] at hc
    rcases hc with rfl | rfl | rfl | rfl | rfl | rfl | rfl | rfl | rfl | rfl | rfl <;> rfl
  rw [List.cons_append] at h ⊢
  rw [hword, h]
  simp only [Atom.isEnd, Bool.false_eq_true, if_false, List.length_cons, Nat.add_sub_cancel,
    tokensAfter_length]

/-! ## Documents -/

/-- A string between its quotes is one token. -/
theorem lexes_stringText (text : String) : Lexes (stringText text) [.quoted (.ok text)] := by
  intro rest _
  obtain ⟨pieces, hscan, htext⟩ := StringScan.ofChars_flatMap_escaped text.toList rest
  have hok : (StringScan.ofChars (text.toList.flatMap escaped ++ '"' :: rest)).text = .ok text := by
    rw [hscan, StringScan.text]
    simp only [htext, String.ofList_toList]
  have hquoted : tokensAfter 0 ('"' :: (text.toList.flatMap escaped ++ '"' :: rest)) =
      .quoted (StringScan.ofChars (text.toList.flatMap escaped ++ '"' :: rest)).text ::
        (if (StringScan.ofChars (text.toList.flatMap escaped ++ '"' :: rest)).fault.isSome then []
          else tokensAfter (StringScan.ofChars (text.toList.flatMap escaped ++ '"' :: rest)).length
            (text.toList.flatMap escaped ++ '"' :: rest)) := rfl
  have hlength := tokensAfter_length (text.toList.flatMap escaped ++ ['"']) rest
  rw [List.append_assoc, List.length_append] at hlength
  rw [stringText, List.append_assoc, List.cons_append, List.singleton_append, hquoted, hok, hscan]
  exact congrArg (_ :: ·) hlength

/-- A number is one token. -/
theorem lexes_number (value : Number) :
    Lexes value.text.toList [.word (.number value)] := by
  intro rest hrest
  have hatom := numberAtom_text value hrest
  obtain ⟨c, chars, htext, hc⟩ := exists_text_eq_cons value
  rw [htext] at hatom ⊢
  refine tokensAfter_number ?_ hatom
  rcases hc with rfl | hc
  · decide
  · exact mem_of_isDigit hc

/-- What begins with blanks or a bracket behind them ends a number. -/
theorem endsNumber_blanks {blanks : List Char} (h : ∀ c ∈ blanks, isBlank c = true)
    {rest : List Char} (hrest : EndsNumber rest) : EndsNumber (blanks ++ rest) := by
  cases blanks with
  | nil => exact hrest
  | cons c blanks =>
    rintro _ ⟨⟩
    have hc := eq_of_isBlank (h c List.mem_cons_self)
    rcases hc with ((rfl | rfl) | rfl) | rfl <;> decide

/-- Texts with commas in front of them. -/
theorem lexes_behind {layout : Layout} (hlayout : layout.IsBlank) (depth : Nat)
    {texts : List (List Char)} {tokens : List (List Token)}
    (h : List.Forall₂ Lexes texts tokens) {rest : List Char} (hrest : EndsNumber rest) :
    EndsNumber (texts.flatMap (fun text => ',' :: (layout.lineBreak depth ++ text)) ++ rest) ∧
      tokensAfter 0 (texts.flatMap (fun text => ',' :: (layout.lineBreak depth ++ text)) ++ rest) =
        tokens.flatMap (.comma :: ·) ++ tokensAfter 0 rest := by
  induction h with
  | nil => exact ⟨hrest, rfl⟩
  | cons hfirst hothers ih =>
    refine ⟨by rintro _ ⟨⟩; decide, ?_⟩
    simp only [List.flatMap_cons, List.cons_append, List.append_assoc]
    have hcomma : ∀ rest, tokensAfter 0 (',' :: rest) = .comma :: tokensAfter 0 rest :=
      fun _ => rfl
    rw [hcomma, tokensAfter_blanks (hlayout.lineBreak depth), hfirst _ ih.1, ih.2]

/-- Texts in brackets. -/
theorem lexes_bracketed {layout : Layout} (hlayout : layout.IsBlank) (depth : Nat)
    {opening closing : Char} {openingToken closingToken : Token}
    (hopening : ∀ rest, tokensAfter 0 (opening :: rest) = openingToken :: tokensAfter 0 rest)
    (hclosing : ∀ rest, tokensAfter 0 (closing :: rest) = closingToken :: tokensAfter 0 rest)
    (hends : ∀ rest, EndsNumber (closing :: rest))
    {texts : List (List Char)} {tokens : List (List Token)}
    (h : List.Forall₂ Lexes texts tokens) :
    Lexes (bracketed layout depth opening closing texts)
      (openingToken :: separated tokens ++ [closingToken]) := by
  intro rest _
  cases h with
  | nil =>
    rw [bracketed, List.cons_append, hopening]
    exact congrArg _ (hclosing rest)
  | cons hfirst hothers =>
    have hclose : EndsNumber (layout.lineBreak depth ++ closing :: rest) :=
      endsNumber_blanks (hlayout.lineBreak depth) (hends rest)
    obtain ⟨hend, htokens⟩ := lexes_behind hlayout (depth + 1) hothers hclose
    simp only [bracketed, separated, List.cons_append, List.append_assoc, List.nil_append]
    rw [hopening, tokensAfter_blanks (hlayout.lineBreak (depth + 1)), hfirst _ hend, htokens,
      tokensAfter_blanks (hlayout.lineBreak depth), hclosing]

mutual

/-- The text of a document has the tokens of the document. -/
theorem lexes_render {layout : Layout} (hlayout : layout.IsBlank) (depth : Nat) :
    ∀ tree : Json, Lexes (tree.render layout depth) tree.toTokens
  | null => by
    intro rest hrest
    rfl
  | bool value => by
    intro rest hrest
    cases value <;> rfl
  | number value => lexes_number value
  | string value => lexes_stringText value
  | list items =>
    lexes_bracketed hlayout depth (fun _ => rfl) (fun _ => rfl) (fun _ _ hc => by cases hc; decide)
      (lexes_renderItems hlayout (depth + 1) items)
  | object members =>
    lexes_bracketed hlayout depth (fun _ => rfl) (fun _ => rfl) (fun _ _ hc => by cases hc; decide)
      (lexes_renderMembers hlayout (depth + 1) members)

/-- The texts of items have the tokens of the items. -/
theorem lexes_renderItems {layout : Layout} (hlayout : layout.IsBlank) (depth : Nat) :
    ∀ items : List Json, List.Forall₂ Lexes (renderItems layout depth items) (itemTokens items)
  | [] => .nil
  | item :: rest =>
    .cons (lexes_render hlayout depth item) (lexes_renderItems hlayout depth rest)

/-- The texts of members have the tokens of the members. -/
theorem lexes_renderMembers {layout : Layout} (hlayout : layout.IsBlank) (depth : Nat) :
    ∀ members : List (String × Json),
      List.Forall₂ Lexes (renderMembers layout depth members) (memberTokens members)
  | [] => .nil
  | (key, value) :: rest => by
    refine .cons ?_ (lexes_renderMembers hlayout depth rest)
    intro rest hrest
    obtain ⟨blanks, hcolon, hblanks⟩ := hlayout.colon
    have hmember : ∀ rest, tokensAfter 0 (':' :: rest) = .colon :: tokensAfter 0 rest :=
      fun _ => rfl
    have hends : EndsNumber (':' :: (blanks ++ (render layout depth value ++ rest))) := by
      rintro _ ⟨⟩
      decide
    rw [hcolon, List.append_assoc, List.append_assoc, List.cons_append,
      lexes_stringText key _ hends, hmember, tokensAfter_blanks hblanks,
      lexes_render hlayout depth value rest hrest]
    rfl

end

end Json

end ElementCatalog
