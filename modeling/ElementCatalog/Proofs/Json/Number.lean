import ElementCatalog.Json.Token
import ElementCatalog.Proofs.Number.Shortest

/-!
# Numbers of a written document

A number reads back from its text, in front of anything that a number cannot go on with
(`numberAtom_text`). The text is that of a literal (`Number.toLiteral`): a literal is read from its
characters (`literal_chars`), and it stands for the number that it is made for
(`Number.ofLiteral_toLiteral`).
-/

namespace ElementCatalog

/-! ## Decimal digits -/

namespace Number

/-- The digits of a number stand for it. -/
theorem ofDigits_digitsOf (n : Nat) : ofDigits (digitsOf n) = n := by
  have h := Nat.ofDigitChars_ten_toDigits (n := n)
  rwa [Nat.ofDigitChars_eq_foldl] at h

/-- The digits of a number do not begin with a zero, unless that is all. -/
theorem digitsOf_ne_zero_cons {n : Nat} (c : Char) (rest : List Char) :
    digitsOf n ≠ '0' :: c :: rest := by
  intro h
  induction n using Nat.strongRecOn generalizing c rest with
  | ind n ih =>
    by_cases hn : n < 10
    · rw [digitsOf, Nat.toDigits_of_lt_base hn] at h
      simp at h
    · rw [digitsOf, Nat.toDigits_of_base_le (by decide) (by omega), ← digitsOf] at h
      -- The digits of the tenth part begin with the zero, so they are the zero alone.
      match hdigits : digitsOf (n / 10) with
      | [] => exact Nat.toDigits_ne_nil hdigits
      | [first] =>
        rw [hdigits] at h
        obtain rfl := (List.cons.inj h).1
        have hzero := ofDigits_digitsOf (n / 10)
        rw [hdigits] at hzero
        have : n / 10 = 0 := hzero.symm
        omega
      | first :: second :: others =>
        rw [hdigits] at h
        obtain rfl := (List.cons.inj h).1
        exact ih (n / 10) (by omega) second others hdigits

theorem isDigit_of_mem_digitsOf {n : Nat} {c : Char} (h : c ∈ digitsOf n) :
    Json.isDigit c = true := by
  have := Nat.isDigit_of_mem_toDigits (b := 10) (by decide) (by decide) h
  simpa [Json.isDigit, Char.isDigit, Char.le_def] using this

theorem digitsOf_ne_nil (n : Nat) : digitsOf n ≠ [] :=
  Nat.toDigits_ne_nil

/-- Digits in front of others count more by a power of ten. -/
theorem ofDigits_append (front back : List Char) :
    ofDigits (front ++ back) = ofDigits front * 10 ^ back.length + ofDigits back := by
  induction back using List.reverseRecOn with
  | nil => simp [ofDigits]
  | append_singleton back c ih =>
    have hpush (chars : List Char) :
        ofDigits (chars ++ [c]) = 10 * ofDigits chars + (c.toNat - '0'.toNat) := by
      simp [ofDigits]
    rw [← List.append_assoc, hpush, ih, hpush, List.length_append, List.length_singleton, pow_succ]
    ring

theorem ofDigits_replicate_zero (n : Nat) : ofDigits (List.replicate n '0') = 0 := by
  induction n with
  | zero => rfl
  | succ n ih => rw [List.replicate_succ', ofDigits_append, ih]; rfl

/-! ## Literals -/

namespace Literal

/-- The characters of a fraction. -/
def fractionChars : Option (List Char) → List Char
  | none => []
  | some fraction => '.' :: fraction

/-- The characters of an exponent, which has a sign. -/
def exponentChars : Option Int → List Char
  | none => []
  | some exponent => 'e' :: (if exponent < 0 then '-' else '+') :: digitsOf exponent.natAbs

/-- The characters of a literal. -/
def chars (literal : Literal) : List Char :=
  (if literal.negative then ['-'] else []) ++ literal.whole ++ fractionChars literal.fraction ++
    exponentChars literal.exponent

/-- A literal has the digits that it needs, and no zero in front of others. -/
structure IsWritten (literal : Literal) : Prop where
  /-- There is a digit before the point. -/
  whole_ne_nil : literal.whole ≠ []
  /-- Digits stand before the point. -/
  whole : ∀ c ∈ literal.whole, Json.isDigit c = true
  /-- A zero before the point stands alone. -/
  no_zero (c : Char) (rest : List Char) : literal.whole ≠ '0' :: c :: rest
  /-- There is a digit after the point. -/
  fraction_ne_nil : ∀ digits ∈ literal.fraction, digits ≠ []
  /-- Digits stand after the point. -/
  fraction : ∀ digits ∈ literal.fraction, ∀ c ∈ digits, Json.isDigit c = true

/-- The value of a literal, its sign apart. -/
def magnitude (literal : Literal) : ℚ :=
  ofDigits (literal.whole ++ literal.fraction.getD []) *
    10 ^ (literal.exponent.getD 0 - (literal.fraction.getD []).length)

end Literal

/-- The literal that a decimal is written as. -/
def decimalLiteral (negative : Bool) (x : Decimal) : Literal :=
  let digits := digitsOf x.digits
  let leading : Int := x.exponent + digits.length - 1
  if leastPlain ≤ leading ∧ leading ≤ greatestPlain then
    if 0 ≤ x.exponent then
      ⟨negative, digits ++ List.replicate x.exponent.toNat '0', some ['0'], none⟩
    else if 0 ≤ leading then
      ⟨negative, digits.take (leading.toNat + 1), some (digits.drop (leading.toNat + 1)), none⟩
    else ⟨negative, ['0'], some (List.replicate ((-leading).toNat - 1) '0' ++ digits), none⟩
  else
    ⟨negative, digits.take 1, if digits.length = 1 then none else some (digits.drop 1),
      some leading⟩

/-- The literal that a number is written as. -/
def toLiteral : Number → Literal
  | int value _ => ⟨decide (value < 0), digitsOf value.natAbs, none, none⟩
  | binary value => decimalLiteral value.negative value.shortest

variable {negative : Bool} {x : Decimal}

theorem chars_decimalLiteral (negative : Bool) (x : Decimal) :
    (decimalLiteral negative x).chars = (if negative then ['-'] else []) ++ decimalText x := by
  simp only [decimalLiteral, decimalText]
  split
  · split
    · simp [Literal.chars, Literal.fractionChars, Literal.exponentChars]
    · split <;> simp [Literal.chars, Literal.fractionChars, Literal.exponentChars]
  · split <;> simp [Literal.chars, Literal.fractionChars, Literal.exponentChars]

/-- A number is written as its literal. -/
theorem toList_text (value : Number) : value.text.toList = value.toLiteral.chars := by
  rw [text.eq_def]
  cases value with
  | int value bounds =>
    rw [String.toList_ofList]
    by_cases hsign : value < 0 <;>
      simp [toLiteral, Literal.chars, Literal.fractionChars, Literal.exponentChars, hsign]
  | binary value => rw [String.toList_ofList, toLiteral, chars_decimalLiteral]

/-- The literal of a decimal has the value of the decimal. -/
theorem magnitude_decimalLiteral (negative : Bool) (x : Decimal) :
    (decimalLiteral negative x).magnitude = x.digits * 10 ^ x.exponent := by
  have hvalue := ofDigits_digitsOf x.digits
  have hlength : 0 < (digitsOf x.digits).length := List.length_pos_iff.2 (digitsOf_ne_nil _)
  fun_cases decimalLiteral negative x with
  | case1 digits leading hmoderate hplain =>
    -- The zeros behind the digits multiply them, and so does the one behind the point.
    obtain ⟨n, hn⟩ := Int.eq_ofNat_of_zero_le hplain
    have hzeros :
        ofDigits (digits ++ List.replicate n '0' ++ ['0']) = x.digits * 10 ^ n * 10 := by
      rw [ofDigits_append, ofDigits_append, ofDigits_replicate_zero, List.length_replicate, hvalue]
      rfl
    simp only [Literal.magnitude, hn, Int.toNat_natCast, Option.getD_some, Option.getD_none, hzeros,
      List.length_singleton]
    push_cast
    norm_num
    ring
  | case2 digits leading hmoderate hplain hleading =>
    -- The point stands as many digits from the end as the exponent says.
    have hexponent : (0 : Int) - (digits.drop (leading.toNat + 1)).length = x.exponent := by
      rw [List.length_drop]
      omega
    simp only [Literal.magnitude, Option.getD_some, Option.getD_none, List.take_append_drop, hvalue,
      hexponent, digits]
  | case3 digits leading hmoderate hplain hleading =>
    -- The zeros in front of the digits count nothing.
    have hzeros :
        ofDigits (['0'] ++ (List.replicate ((-leading).toNat - 1) '0' ++ digits)) = x.digits := by
      rw [ofDigits_append, ofDigits_append, ofDigits_replicate_zero, hvalue]
      simp [ofDigits]
    have hexponent : (0 : Int) - (List.replicate ((-leading).toNat - 1) '0' ++ digits).length =
        x.exponent := by
      rw [List.length_append, List.length_replicate]
      omega
    simp only [Literal.magnitude, Option.getD_some, Option.getD_none, hzeros, hexponent]
  | case4 digits leading hmoderate =>
    -- The exponent is that of the first digit.
    split
    · next hone =>
      have hexponent : leading - ([] : List Char).length = x.exponent := by
        rw [List.length_nil]
        omega
      simp only [Literal.magnitude, Option.getD_some, Option.getD_none, List.append_nil,
        List.take_of_length_le hone.le, hvalue, hexponent, digits]
    · have hexponent : leading - (digits.drop 1).length = x.exponent := by
        rw [List.length_drop, Nat.cast_sub (show 1 ≤ digits.length from hlength)]
        omega
      simp only [Literal.magnitude, Option.getD_some, List.take_append_drop, hvalue, hexponent,
        digits]

/-- The digits of a decimal begin with a zero only where no zeros are written behind it. -/
theorem no_zero_of_append_zeros (hx : x.digits ≠ 0 ∨ x.exponent = 0) (c : Char)
    (rest : List Char) :
    digitsOf x.digits ++ List.replicate x.exponent.toNat '0' ≠ '0' :: c :: rest := by
  intro h
  match hdigits : digitsOf x.digits with
  | [] => exact digitsOf_ne_nil _ hdigits
  | [first] =>
    rw [hdigits, List.singleton_append] at h
    obtain ⟨rfl, hzeros⟩ := List.cons.inj h
    have hzero : x.digits = 0 := by
      rw [← ofDigits_digitsOf x.digits, hdigits]
      rfl
    rw [hx.resolve_left (absurd hzero)] at hzeros
    cases hzeros
  | first :: second :: others =>
    rw [hdigits, List.cons_append] at h
    exact digitsOf_ne_zero_cons second others ((List.cons.inj h).1 ▸ hdigits)

/-- The literal of a decimal has the digits that it needs. -/
theorem isWritten_decimalLiteral (hx : x.digits ≠ 0 ∨ x.exponent = 0) :
    (decimalLiteral negative x).IsWritten := by
  have hnil := digitsOf_ne_nil x.digits
  have hlength : 0 < (digitsOf x.digits).length := List.length_pos_iff.2 hnil
  have hall : ∀ c ∈ digitsOf x.digits, Json.isDigit c = true := fun c => isDigit_of_mem_digitsOf
  have hzeros (n : Nat) : ∀ c ∈ List.replicate n '0', Json.isDigit c = true := fun c hc =>
    List.eq_of_mem_replicate hc ▸ rfl
  -- Some of the first digits begin with a zero only if all do.
  have htake (n : Nat) (c : Char) (rest : List Char) :
      (digitsOf x.digits).take n ≠ '0' :: c :: rest := by
    intro h
    have hsplit := List.take_append_drop n (digitsOf x.digits)
    rw [h] at hsplit
    exact digitsOf_ne_zero_cons c (rest ++ (digitsOf x.digits).drop n) hsplit.symm
  fun_cases decimalLiteral negative x with
  | case1 digits leading hmoderate hplain =>
    exact {
      whole_ne_nil := by simp [digits, hnil]
      whole := fun c hc => (List.mem_append.1 hc).elim (hall c) (hzeros _ c)
      no_zero := no_zero_of_append_zeros hx
      fraction_ne_nil := by simp
      fraction := by simp [Json.isDigit] }
  | case2 digits leading hmoderate hplain hleading =>
    exact {
      whole_ne_nil := by simp [digits, hnil]
      whole := fun c hc => hall c (List.mem_of_mem_take hc)
      no_zero := htake _
      fraction_ne_nil := by
        -- The exponent is negative, so not all digits stand before the point.
        rintro _ ⟨⟩
        exact List.ne_nil_of_length_pos (by rw [List.length_drop]; omega)
      fraction := by
        rintro _ ⟨⟩ c hc
        exact hall c (List.mem_of_mem_drop hc) }
  | case3 digits leading hmoderate hplain hleading =>
    exact {
      whole_ne_nil := by simp
      whole := by simp [Json.isDigit]
      no_zero := by simp
      fraction_ne_nil := by simp [digits, hnil]
      fraction := by
        rintro _ ⟨⟩ c hc
        exact (List.mem_append.1 hc).elim (hzeros _ c) (hall c) }
  | case4 digits leading hmoderate =>
    exact {
      whole_ne_nil := by simp [digits, hnil]
      whole := fun c hc => hall c (List.mem_of_mem_take hc)
      no_zero := htake 1
      fraction_ne_nil := by
        split
        · simp
        · next hone =>
          rintro _ ⟨⟩
          have hmore : 1 < digits.length := lt_of_le_of_ne hlength (Ne.symm hone)
          exact List.ne_nil_of_length_pos (List.length_drop ▸ Nat.sub_pos_of_lt hmore)
      fraction := by
        split
        · simp
        · rintro _ ⟨⟩ c hc
          exact hall c (List.mem_of_mem_drop hc) }

/-- A decimal has a fraction or an exponent, so its literal is no integer. -/
theorem toInt?_decimalLiteral (negative : Bool) (x : Decimal) :
    (decimalLiteral negative x).toInt? = none := by
  fun_cases decimalLiteral negative x
  case case4 => split <;> rfl
  all_goals rfl

theorem negative_decimalLiteral (negative : Bool) (x : Decimal) :
    (decimalLiteral negative x).negative = negative := by
  fun_cases decimalLiteral negative x <;> rfl

/-- The literal of a number has the digits that it needs. -/
theorem isWritten_toLiteral (value : Number) : value.toLiteral.IsWritten := by
  cases value with
  | int value bounds =>
    exact ⟨digitsOf_ne_nil _, fun c => isDigit_of_mem_digitsOf, digitsOf_ne_zero_cons,
      fun _ h => (nomatch h), fun _ h => (nomatch h)⟩
  | binary value => exact isWritten_decimalLiteral value.shortest_digits

/-- The literal of a number stands for the number. -/
theorem ofLiteral_toLiteral (value : Number) : ofLiteral value.toLiteral = some value := by
  cases value with
  | int value bounds =>
    have hint : ofInt? value = some (.int value bounds) := dif_pos bounds
    simp only [ofLiteral, toLiteral, Literal.toInt?, ofDigits_digitsOf, decide_eq_true_eq]
    by_cases hsign : value < 0
    · rw [if_pos hsign, if_neg (by omega), show -(value.natAbs : Int) = value by omega, hint]
      rfl
    · rw [if_neg hsign, show (value.natAbs : Int) = value by omega, hint]
      rfl
  | binary value =>
    have hbinary : (decimalLiteral value.negative value.shortest).toBinary? = some value := by
      rw [Literal.toBinary?, negative_decimalLiteral]
      exact value.ofDecimal_of_eq_shortest (magnitude_decimalLiteral _ _)
    rw [ofLiteral, toLiteral, toInt?_decimalLiteral, hbinary]
    rfl

end Number

/-! ## Reading literals -/

namespace Json

open Number (Literal)

/-- What can stand behind a number without being read as a part of it. -/
def EndsNumber (rest : List Char) : Prop :=
  ∀ c ∈ rest.head?, isDigit c = false ∧ c ∉ ['.', 'e', 'E']

/-- Digits are read up to what is no digit. -/
theorem digits_append {found rest : List Char} (hfound : found ≠ [])
    (hdigits : ∀ c ∈ found, isDigit c = true) (hrest : ∀ c ∈ rest.head?, isDigit c = false) :
    digits (found ++ rest) = .ok (found, rest) := by
  have htake : rest.takeWhile isDigit = [] := by
    cases rest with
    | nil => rfl
    | cons c rest => simp [hrest c rfl]
  have hdrop : rest.dropWhile isDigit = rest := by
    cases rest with
    | nil => rfl
    | cons c rest => simp [hrest c rfl]
  rw [digits, List.takeWhile_append_of_pos hdigits, List.dropWhile_append_of_pos hdigits, htake,
    hdrop, List.append_nil]
  split
  · exact absurd rfl hfound
  · rfl

/-- An exponent is read up to the end of the number. -/
theorem exponentDigits_append (exponent : Option Int) {rest : List Char} (hrest : EndsNumber rest) :
    exponentDigits (Literal.exponentChars exponent ++ rest) =
      .ok (exponent, (Literal.exponentChars exponent).length, rest) := by
  cases exponent with
  | none =>
    rw [Literal.exponentChars, List.nil_append, exponentDigits.eq_def]
    -- What stands behind the number does not begin with the letter of an exponent.
    split
    · next c rest =>
      have hc := (hrest c rfl).2
      simp only [List.mem_cons, not_or] at hc
      rw [if_neg (by simp [hc])]
      rfl
    · rfl
  | some exponent =>
    have hdigits := digits_append (Number.digitsOf_ne_nil exponent.natAbs)
      (fun c => Number.isDigit_of_mem_digitsOf) fun c hc => (hrest c hc).1
    by_cases hsign : exponent < 0
    · have hvalue : -(exponent.natAbs : Int) = exponent := by omega
      simp only [Literal.exponentChars, if_pos hsign, List.cons_append, exponentDigits, hdigits,
        bind, Except.bind, pure, Except.pure, Number.ofDigits_digitsOf, hvalue, List.length_cons,
        List.length_nil, true_or, if_true]
      refine congrArg Except.ok (congrArg _ (congrArg (·, rest) ?_))
      omega
    · have hvalue : (exponent.natAbs : Int) = exponent := by omega
      have hplus : ¬ ['+'] = ['-'] := by decide
      simp only [Literal.exponentChars, if_neg hsign, List.cons_append, exponentDigits, hdigits,
        bind, Except.bind, pure, Except.pure, Number.ofDigits_digitsOf, hvalue, List.length_cons,
        List.length_nil, true_or, if_true, if_neg hplus]
      refine congrArg Except.ok (congrArg _ (congrArg (·, rest) ?_))
      omega

/-- A fraction is read up to what is neither a digit nor a point. -/
theorem fractionDigits_append {fraction : Option (List Char)}
    (hnil : ∀ digits ∈ fraction, digits ≠ [])
    (hdigits : ∀ digits ∈ fraction, ∀ c ∈ digits, isDigit c = true) {rest : List Char}
    (hrest : ∀ c ∈ rest.head?, isDigit c = false ∧ c ≠ '.') :
    fractionDigits (Literal.fractionChars fraction ++ rest) = .ok (fraction, rest) := by
  cases fraction with
  | none =>
    rw [Literal.fractionChars, List.nil_append, fractionDigits.eq_def]
    split
    · exact absurd rfl (hrest '.' rfl).2
    · rfl
  | some found =>
    rw [Literal.fractionChars, List.cons_append, fractionDigits,
      digits_append (hnil found rfl) (hdigits found rfl) fun c hc => (hrest c hc).1]
    rfl

/-- The digits before the point are read up to what is no digit. -/
theorem wholeDigits_append {written : Literal} (h : written.IsWritten) {rest : List Char}
    (hrest : ∀ c ∈ rest.head?, isDigit c = false) :
    wholeDigits (written.whole ++ rest) = .ok (written.whole, rest) := by
  rw [wholeDigits, digits_append h.whole_ne_nil h.whole hrest]
  simp only [bind, Except.bind]
  split
  · next heq => exact absurd heq (h.no_zero _ _)
  · rfl

/-- An exponent, or what stands behind the number, begins with no digit and no point. -/
theorem head_exponentChars (exponent : Option Int) {rest : List Char} (hrest : EndsNumber rest) :
    ∀ c ∈ (Literal.exponentChars exponent ++ rest).head?, isDigit c = false ∧ c ≠ '.' := by
  cases exponent with
  | none => exact fun c hc => ⟨(hrest c hc).1, fun heq => (hrest c hc).2 (by simp [heq])⟩
  | some exponent =>
    rintro _ ⟨⟩
    decide

/-- A fraction, or what stands behind it, begins with no digit. -/
theorem head_fractionChars (fraction : Option (List Char)) {rest : List Char}
    (hrest : ∀ c ∈ rest.head?, isDigit c = false) :
    ∀ c ∈ (Literal.fractionChars fraction ++ rest).head?, isDigit c = false := by
  cases fraction with
  | none => exact hrest
  | some fraction =>
    rintro _ ⟨⟩
    rfl

/-- A literal is read from its characters up to the end of the number. -/
theorem literal_chars {written : Literal} (h : written.IsWritten) {rest : List Char}
    (hrest : EndsNumber rest) :
    literal (written.chars ++ rest) = .ok (written, written.chars.length) := by
  -- No part of the number goes on with what the next part begins with.
  have hexponent := head_exponentChars written.exponent hrest
  have hfraction := head_fractionChars written.fraction fun c hc => (hexponent c hc).1
  have hwhole := wholeDigits_append h hfraction
  have hfractionDigits := fractionDigits_append h.fraction_ne_nil h.fraction hexponent
  have hexponentDigits := exponentDigits_append written.exponent hrest
  obtain ⟨negative, whole, fraction, exponent⟩ := written
  simp only at *
  cases negative with
  | true =>
    simp only [literal, Literal.chars, List.cons_append, List.append_assoc, List.nil_append, hwhole,
      hfractionDigits, hexponentDigits, bind, Except.bind, pure, Except.pure, if_true,
      List.length_cons, List.length_append]
    refine congrArg Except.ok (congrArg _ ?_)
    cases fraction <;> simp only [Literal.fractionChars, List.length_nil, List.length_cons] <;>
      omega
  | false =>
    simp only [literal, Literal.chars, Bool.false_eq_true, if_false, List.nil_append,
      List.append_assoc]
    split
    · next heq =>
      -- No digit is a minus sign.
      obtain ⟨c, others, rfl⟩ := List.exists_cons_of_ne_nil h.whole_ne_nil
      have hc := h.whole c List.mem_cons_self
      obtain rfl := (List.cons.inj heq).1
      cases hc
    · simp only [hwhole, hfractionDigits, hexponentDigits, bind, Except.bind, pure, Except.pure,
        Bool.false_eq_true, if_false, List.length_append]
      refine congrArg Except.ok (congrArg _ ?_)
      cases fraction <;> simp only [Literal.fractionChars, List.length_nil, List.length_cons] <;>
        omega

/-! ## Reading numbers -/

/-- A number reads back from its text, if something stands behind it that ends a number. -/
theorem numberAtom_text (value : Number) {rest : List Char} (hrest : EndsNumber rest) :
    numberAtom (value.text.toList ++ rest) = (.number value, value.text.toList.length) := by
  rw [Number.toList_text, numberAtom, literal_chars value.isWritten_toLiteral hrest]
  simp only [Number.ofLiteral_toLiteral]

/-- The text of a number begins with a minus sign or a digit. -/
theorem exists_text_eq_cons (value : Number) :
    ∃ c chars, value.text.toList = c :: chars ∧ (c = '-' ∨ isDigit c = true) := by
  have h := value.isWritten_toLiteral
  obtain ⟨c, others, hwhole⟩ := List.exists_cons_of_ne_nil h.whole_ne_nil
  have hc := h.whole c (hwhole ▸ List.mem_cons_self)
  rw [Number.toList_text, Literal.chars, hwhole]
  cases value.toLiteral.negative with
  | true => exact ⟨_, _, rfl, .inl rfl⟩
  | false => exact ⟨_, _, rfl, .inr hc⟩

end Json

end ElementCatalog
