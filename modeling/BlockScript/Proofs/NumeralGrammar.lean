import BlockScript.Lexer

/-
  This file states the grammar of decimal numerals, and shows
  that reading a text as a numeral finds all that is in the
  grammar and nothing else. A word of a script is a number if
  and only if it is a numeral: the words for numbers that are
  not finite do not look like one.

  Key definitions include:
    * `Sign`
    * `Decimal.Signed`
    * `Decimal.Mantissa`
    * `Decimal.Exponent`
    * `Decimal.Numeral`

  Key theorems include:
    * `Decimal.parseSigned?_eq_some_iff`
    * `Decimal.parse?_eq_some_iff`
    * `wordKind_eq_number_iff`
-/

namespace BlockScript
namespace Number

------------------------------------------------------------
-- Grammar
------------------------------------------------------------

/- The text of an optional sign. -/
inductive Sign : Bool → List Char → Prop where
  | absent : Sign false []
  | plus : Sign false ['+']
  | minus : Sign true ['-']

/- A text of decimal digits only. -/
def IsDigits (text : List Char) : Prop :=
  ∀ c ∈ text, c.isDigit = true

namespace Decimal

/- The text of an integer: a sign and at least one digit. -/
inductive Signed : Int → List Char → Prop where
  | digits
      {negative : Bool}
      {sign digits : List Char}
      (hSign : Sign negative sign)
      (hSome : digits ≠ [])
      (hDigits : IsDigits digits) :
      Signed
        (if negative then -(ofDigits digits : Int)
          else ofDigits digits)
        (sign ++ digits)

/-
  The text of two runs of digits, with a point between them
  that may be absent if nothing follows it.
-/
inductive Mantissa :
    List Char → List Char → List Char → Prop where
  | whole
      {whole : List Char}
      (hWhole : IsDigits whole) :
      Mantissa whole [] whole
  | point
      {whole fraction : List Char}
      (hWhole : IsDigits whole)
      (hFraction : IsDigits fraction) :
      Mantissa whole fraction (whole ++ '.' :: fraction)

/- The text of an optional power of ten. -/
inductive Exponent : Int → List Char → Prop where
  | absent : Exponent 0 []
  | power
      {mark : Char}
      {n : Int}
      {text : List Char}
      (hMark : mark = 'e' ∨ mark = 'E')
      (hSigned : Signed n text) :
      Exponent n (mark :: text)

/-
  The text of a numeral: a sign, digits on some side of a
  point, and a power of ten.
-/
inductive Numeral : Decimal → List Char → Prop where
  | parts
      {negative : Bool}
      {sign whole fraction mantissa exponent : List Char}
      {power : Int}
      (hSign : Sign negative sign)
      (hMantissa : Mantissa whole fraction mantissa)
      (hSome : whole ++ fraction ≠ [])
      (hExponent : Exponent power exponent) :
      Numeral
        { negative,
          coefficient := ofDigits (whole ++ fraction),
          exponent := power - fraction.length }
        (sign ++ (mantissa ++ exponent))

end Decimal

------------------------------------------------------------
-- Signs
------------------------------------------------------------

/- A sign is split off, whatever follows it. -/
theorem sign_of_splitSign
    (text : List Char) :
    ∃ sign,
      Sign (splitSign text).1 sign
        ∧ text = sign ++ (splitSign text).2 := by
  unfold splitSign
  split
  · exact ⟨['-'], .minus, rfl⟩
  · exact ⟨['+'], .plus, rfl⟩
  · exact ⟨[], .absent, rfl⟩

/- What follows a sign is found if it starts with none. -/
theorem splitSign_of_sign
    {negative : Bool}
    {sign rest : List Char}
    (hSign : Sign negative sign)
    (hRest : ∀ c ∈ rest.head?, c ≠ '-' ∧ c ≠ '+') :
    splitSign (sign ++ rest) = (negative, rest) := by
  cases hSign with
  | plus => rfl
  | minus => rfl
  | absent =>
      rw [List.nil_append]
      unfold splitSign
      split
      · exact absurd rfl (hRest '-' rfl).1
      · exact absurd rfl (hRest '+' rfl).2
      · rfl

/- No digit is a mark of another part of a numeral. -/
theorem ne_of_isDigit
    {c d : Char}
    (hDigit : c.isDigit = true)
    (hOther : d.isDigit = false) :
    c ≠ d := by
  rintro rfl
  simp [hDigit] at hOther

theorem IsDigits.head_unsigned
    {digits : List Char}
    (hDigits : IsDigits digits) :
    ∀ c ∈ digits.head?, c ≠ '-' ∧ c ≠ '+' := by
  intro c hc
  have hDigit := hDigits c (List.mem_of_mem_head? hc)
  exact ⟨ne_of_isDigit hDigit (by decide),
    ne_of_isDigit hDigit (by decide)⟩

------------------------------------------------------------
-- Runs of Digits
------------------------------------------------------------

/- The digits in front of a text are digits. -/
theorem isDigits_takeWhile
    (text : List Char) :
    IsDigits (text.takeWhile Char.isDigit) := by
  intro c hc
  exact List.all_eq_true.mp List.all_takeWhile c hc

/- Digits are split off where no digit follows. -/
theorem IsDigits.split
    {digits rest : List Char}
    (hDigits : IsDigits digits)
    (hRest : ∀ c ∈ rest.head?, c.isDigit = false) :
    (digits ++ rest).takeWhile Char.isDigit = digits
      ∧ (digits ++ rest).dropWhile Char.isDigit = rest := by
  rw [List.takeWhile_append_of_pos hDigits,
    List.dropWhile_append_of_pos hDigits]
  cases rest with
  | nil => simp
  | cons c rest =>
      have hFirst := hRest c rfl
      simp [hFirst]

namespace Decimal

/- The parts that a text is split into are a mantissa. -/
theorem mantissa_of_splitDigits
    (text : List Char) :
    ∃ mantissa,
      Mantissa (splitDigits text).1 (splitDigits text).2.1
          mantissa
        ∧ text = mantissa ++ (splitDigits text).2.2 := by
  have hText :=
    List.takeWhile_append_dropWhile
      (p := Char.isDigit) (l := text)
  have hWhole := isDigits_takeWhile text
  unfold splitDigits
  split
  · rename_i rest hRest
    have hFraction :=
      List.takeWhile_append_dropWhile
        (p := Char.isDigit) (l := rest)
    refine ⟨_, .point hWhole (isDigits_takeWhile rest), ?_⟩
    rw [List.append_assoc, List.cons_append, hFraction,
      ← hRest, hText]
  · exact ⟨_, .whole hWhole, hText.symm⟩

/- A mantissa is split off where it cannot go on. -/
theorem splitDigits_of_mantissa
    {whole fraction mantissa rest : List Char}
    (hMantissa : Mantissa whole fraction mantissa)
    (hRest : ∀ c ∈ rest.head?, c.isDigit = false ∧ c ≠ '.') :
    splitDigits (mantissa ++ rest) = (whole, fraction, rest) := by
  have hStop : ∀ c ∈ rest.head?, c.isDigit = false :=
    fun c hc => (hRest c hc).1
  cases hMantissa with
  | whole hWhole =>
      rcases hWhole.split hStop with ⟨hTake, hDrop⟩
      unfold splitDigits
      rw [hTake, hDrop]
      split
      · exact absurd rfl (hRest '.' rfl).2
      · rfl
  | point hWhole hFraction =>
      have hPoint :
          ∀ c ∈ ('.' :: (fraction ++ rest)).head?,
            c.isDigit = false := by
        rintro c ⟨⟩
        decide
      rcases hWhole.split hPoint with ⟨hTake, hDrop⟩
      rcases hFraction.split hStop with ⟨hFront, hBack⟩
      rw [List.append_assoc, List.cons_append]
      unfold splitDigits
      simp only [hTake, hDrop, hFront, hBack]

/- A mantissa with digits starts with a digit or the point. -/
theorem Mantissa.exists_cons
    {whole fraction mantissa : List Char}
    (rest : List Char)
    (hMantissa : Mantissa whole fraction mantissa)
    (hSome : whole ++ fraction ≠ []) :
    ∃ c tail,
      mantissa ++ rest = c :: tail
        ∧ (c.isDigit = true ∨ c = '.') := by
  cases hMantissa with
  | whole hWhole =>
      rw [List.append_nil] at hSome
      rcases List.exists_cons_of_ne_nil hSome with ⟨c, tail, rfl⟩
      exact ⟨c, tail ++ rest, rfl, .inl (hWhole c (by simp))⟩
  | point hWhole =>
      rcases whole with _ | ⟨c, tail⟩
      · exact ⟨'.', fraction ++ rest, rfl, .inr rfl⟩
      · refine ⟨c, tail ++ '.' :: fraction ++ rest, ?_,
          .inl (hWhole c (by simp))⟩
        simp

/- A sign in front of it is split off. -/
theorem Mantissa.splitSign
    {negative : Bool}
    {sign whole fraction mantissa : List Char}
    (rest : List Char)
    (hMantissa : Mantissa whole fraction mantissa)
    (hSign : Sign negative sign)
    (hSome : whole ++ fraction ≠ []) :
    splitSign (sign ++ (mantissa ++ rest))
      = (negative, mantissa ++ rest) := by
  rcases hMantissa.exists_cons rest hSome with
    ⟨c, tail, hText, hFirst⟩
  apply splitSign_of_sign hSign
  rw [hText]
  rintro _ ⟨⟩
  rcases hFirst with hDigit | rfl
  · exact ⟨ne_of_isDigit hDigit (by decide),
      ne_of_isDigit hDigit (by decide)⟩
  · decide

------------------------------------------------------------
-- Numerals
------------------------------------------------------------

/- Integers are read from the texts of integers. -/
theorem parseSigned?_eq_some_iff
    {n : Int}
    {text : List Char} :
    parseSigned? text = some n ↔ Signed n text := by
  constructor
  · intro hParse
    rcases sign_of_splitSign text with ⟨sign, hSign, hText⟩
    rcases hSplit : splitSign text with ⟨negative, digits⟩
    simp only [hSplit] at hSign hText
    simp only [parseSigned?, hSplit, Option.ite_none_left_eq_some,
      Bool.or_eq_true, List.isEmpty_iff, Bool.not_eq_true',
      not_or, Bool.not_eq_false, List.all_eq_true,
      Option.some.injEq] at hParse
    rcases hParse with ⟨⟨hSome, hDigits⟩, rfl⟩
    rw [hText]
    exact .digits hSign hSome hDigits
  · rintro ⟨hSign, hSome, hDigits⟩
    have hAll := List.all_eq_true.mpr hDigits
    have hSplit := splitSign_of_sign hSign hDigits.head_unsigned
    simp [parseSigned?, hSplit, hAll, hSome]

theorem parseExponent?_eq_some_iff
    {n : Int}
    {text : List Char} :
    parseExponent? text = some n ↔ Exponent n text := by
  constructor
  · intro hParse
    cases text with
    | nil =>
        cases hParse
        exact .absent
    | cons mark text =>
        simp only [parseExponent?, Option.ite_none_right_eq_some,
          Bool.or_eq_true, beq_iff_eq] at hParse
        exact .power hParse.1
          (parseSigned?_eq_some_iff.mp hParse.2)
  · intro hExponent
    cases hExponent with
    | absent => rfl
    | power hMark hSigned =>
        rw [parseExponent?, if_pos (by simpa using hMark)]
        exact parseSigned?_eq_some_iff.mpr hSigned

/- A power of ten does not go on with a mantissa. -/
theorem Exponent.head_stops
    {n : Int}
    {text : List Char}
    (hExponent : Exponent n text) :
    ∀ c ∈ text.head?, c.isDigit = false ∧ c ≠ '.' := by
  cases hExponent with
  | absent => simp
  | power hMark =>
      rintro c ⟨⟩
      rcases hMark with rfl | rfl <;> decide

/-
  A numeral is read from every text of a numeral, and from no
  other text. So a text is that of one numeral at most.
-/
theorem parse?_eq_some_iff
    {d : Decimal}
    {text : List Char} :
    parse? text = some d ↔ Numeral d text := by
  constructor
  · intro hParse
    rcases sign_of_splitSign text with ⟨sign, hSign, hText⟩
    rcases hSplit : splitSign text with ⟨negative, unsigned⟩
    rcases mantissa_of_splitDigits unsigned with
      ⟨mantissa, hMantissa, hRest⟩
    rcases hParts : splitDigits unsigned with
      ⟨whole, fraction, exponent⟩
    simp only [hSplit] at hSign hText
    simp only [hParts] at hMantissa hRest
    simp only [parse?, hSplit, hParts,
      Option.ite_none_left_eq_some, Bool.and_eq_true,
      List.isEmpty_iff, Option.map_eq_some_iff] at hParse
    rcases hParse with ⟨hSome, power, hPower, rfl⟩
    rw [hText, hRest]
    refine .parts hSign hMantissa ?_
      (parseExponent?_eq_some_iff.mp hPower)
    simpa using hSome
  · rintro ⟨hSign, hMantissa, hSome, hExponent⟩
    rename_i negative sign whole fraction mantissa exponent power
    have hParts : (whole.isEmpty && fraction.isEmpty) = false := by
      rw [Bool.eq_false_iff]
      simpa using hSome
    simp only [parse?, hMantissa.splitSign exponent hSign hSome,
      splitDigits_of_mantissa hMantissa hExponent.head_stops,
      parseExponent?_eq_some_iff.mpr hExponent, hParts]
    rfl

/- Which texts are numerals at all. -/
theorem isNumeral_iff
    {text : List Char} :
    isNumeral text = true ↔ ∃ d, Numeral d text := by
  simp only [isNumeral, Option.isSome_iff_exists,
    parse?_eq_some_iff]

/- An integer is a numeral without a point and a power. -/
theorem Signed.numeral
    {n : Int}
    {text : List Char}
    (hSigned : Signed n text) :
    ∃ d, Numeral d text := by
  rcases hSigned with ⟨hSign, hSome, hDigits⟩
  have hNumeral :=
    Numeral.parts hSign (.whole hDigits)
      (by simpa using hSome) .absent
  rw [List.append_nil] at hNumeral
  exact ⟨_, hNumeral⟩

end Decimal

------------------------------------------------------------
-- Words
------------------------------------------------------------

/- Numerals look like numbers. -/
theorem Decimal.Numeral.looksNumeric
    {d : Decimal}
    {text : List Char}
    (hNumeral : Numeral d text) :
    looksNumeric text = true := by
  rcases hNumeral with ⟨hSign, hMantissa, hSome, -⟩
  rename_i exponent _
  have hSplit := hMantissa.splitSign exponent hSign hSome
  rcases hMantissa.exists_cons exponent hSome with
    ⟨c, tail, hText, hFirst⟩
  rw [BlockScript.looksNumeric, hSplit, hText]
  simpa using hFirst

/- Letters alone are changed to lower case. -/
theorem toLower_of_numeric
    {c : Char}
    (hNumeric : c.isDigit = true ∨ c = '.') :
    c.toLower = c := by
  rcases hNumeric with hDigit | rfl
  · have hBelow : ¬ c.val ≥ 'A'.val := by
      simp only [Char.isDigit, Bool.and_eq_true,
        decide_eq_true_eq] at hDigit
      have hNine : c.val ≤ '9'.val := hDigit.2
      have hOrder : '9'.val < 'A'.val := by decide
      exact UInt32.not_le.mpr (UInt32.lt_of_le_of_lt hNine hOrder)
    unfold Char.toLower
    exact dif_neg fun h => hBelow h.1
  · rfl

/- The words for numbers that are not finite do not. -/
theorem looksNumeric_of_ofWord?
    {f : Format}
    {x : Binary f}
    {text : List Char}
    (hWord : Binary.ofWord? text = some x) :
    looksNumeric text = false := by
  rw [Bool.eq_false_iff]
  intro hLooks
  unfold looksNumeric at hLooks
  rcases hUnsigned : (splitSign text).2 with _ | ⟨c, tail⟩
  · rw [hUnsigned] at hLooks
    cases hLooks
  · rw [hUnsigned] at hLooks
    have hFirst : c.isDigit = true ∨ c = '.' := by
      simpa using hLooks
    have hLower := toLower_of_numeric hFirst
    have hStart :
        ∀ d, d.isDigit = false → d ≠ '.' → c ≠ d := by
      rintro d hDigit hPoint rfl
      rcases hFirst with hFirst | hFirst
      · simp [hFirst] at hDigit
      · exact hPoint hFirst
    have hN : c ≠ 'n' := hStart 'n' (by decide) (by decide)
    have hI : c ≠ 'i' := hStart 'i' (by decide) (by decide)
    simp [Binary.ofWord?, hUnsigned, hLower, hN, hI,
      ← String.toList_inj] at hWord

end Number

/-
  A word is a number if and only if it is a numeral, though
  other words also name numbers.
-/
theorem wordKind_eq_number_iff
    {word : List Char} :
    wordKind word = .number
      ↔ ∃ d, Number.Decimal.Numeral d word := by
  have hKind :
      wordKind word = .number
        ↔ looksNumeric word = true
          ∧ (Number.Binary.parse? word
              : Option Number.Double).isSome = true := by
    unfold wordKind
    split <;> simp_all
  rw [hKind]
  constructor
  · rintro ⟨hLooks, hSome⟩
    rcases hDecimal : Number.Decimal.parse? word with _ | d
    · rcases Option.isSome_iff_exists.mp hSome with ⟨x, hParse⟩
      simp only [Number.Binary.parse?, hDecimal] at hParse
      rw [Number.looksNumeric_of_ofWord? hParse] at hLooks
      cases hLooks
    · exact ⟨d, Number.Decimal.parse?_eq_some_iff.mp hDecimal⟩
  · rintro ⟨d, hNumeral⟩
    have hParse := Number.Decimal.parse?_eq_some_iff.mpr hNumeral
    refine ⟨hNumeral.looksNumeric, ?_⟩
    simp [Number.Binary.parse?, hParse]

/- All other words are identifiers. -/
theorem wordKind_eq_ident_iff
    {word : List Char} :
    wordKind word = .ident ↔ wordKind word ≠ .number := by
  unfold wordKind
  split <;> simp

end BlockScript
