import BlockScript.Proofs.NumeralGrammar
import BlockScript.Proofs.Rounding
import BlockScript.Proofs.Tiling
import BlockScript.Value.Reader

/-
  This file shows that the words of a script which are numbers
  are those that can be values of number types: an integer if
  the value has a place among those of 64 bits, and a number
  of 32 bits if the value is not rounded to infinity. No other
  word is a number to any of them.

  Key definitions include:
    * `Token.AgreesOnNumbers`

  Key theorems include:
    * `Whole.parse?_eq_some_iff`
    * `Binary.parseFinite?_eq_some_iff`
    * `tokenize_numbers`
-/

namespace BlockScript

open Number (Single)
open Number.Decimal (Numeral Signed)

------------------------------------------------------------
-- Integers
------------------------------------------------------------

namespace Number

/- Integers of 64 bits are read from their texts. -/
theorem Whole.parse?_eq_some_iff
    {n : Int64}
    {text : List Char} :
    parse? text = some n ↔ Signed n.toInt text := by
  rw [← Decimal.parseSigned?_eq_some_iff]
  unfold parse?
  constructor
  · intro hParse
    split at hParse
    · rename_i m hSigned
      split at hParse
      · rename_i hRange
        rw [isInRange, Bool.and_eq_true, decide_eq_true_eq,
          decide_eq_true_eq] at hRange
        cases hParse
        rw [Int64.toInt_minValue, Int64.toInt_maxValue] at hRange
        rw [hSigned,
          Int64.toInt_ofInt_of_le hRange.1 (by omega)]
      · cases hParse
    · cases hParse
  · intro hSigned
    simp [hSigned, isInRange_toInt]

/- An integer is read if it has a place among these. -/
theorem Whole.isSome_parse?_iff
    {text : List Char} :
    (parse? text).isSome = true
      ↔ ∃ n, Signed n text ∧ -2 ^ 63 ≤ n ∧ n < 2 ^ 63 := by
  rw [Option.isSome_iff_exists]
  constructor
  · rintro ⟨n, hParse⟩
    exact ⟨n.toInt, parse?_eq_some_iff.mp hParse, n.le_toInt,
      n.toInt_lt⟩
  · rintro ⟨n, hSigned, hLow, hHigh⟩
    refine ⟨Int64.ofInt n, parse?_eq_some_iff.mpr ?_⟩
    rwa [Int64.toInt_ofInt_of_le hLow hHigh]

------------------------------------------------------------
-- Finite Numbers
------------------------------------------------------------

/- The words for other numbers name none that is finite. -/
theorem Binary.isFinite_of_ofWord?
    {f : Format}
    {x : Binary f}
    {text : List Char}
    (hWord : ofWord? text = some x) :
    x.isFinite = false := by
  unfold ofWord? at hWord
  simp only at hWord
  split at hWord
  · cases hWord
    rfl
  · split at hWord
    · cases hWord
      rfl
    · cases hWord

/- Finite numbers are read from numerals rounded to them. -/
theorem Binary.parseFinite?_eq_some_iff
    {f : Format}
    {x : Binary f}
    {text : List Char}
    (hBits : 0 < f.fractionBits) :
    parseFinite? text = some x
      ↔ ∃ d, Numeral d text ∧ x.Rounds d ∧ x.isFinite = true := by
  rw [parseFinite?, Option.filter_eq_some_iff, parse?]
  constructor
  · rintro ⟨hParse, hFinite⟩
    rcases hDecimal : Decimal.parse? text with _ | d
    · simp only [hDecimal] at hParse
      rw [isFinite_of_ofWord? hParse] at hFinite
      cases hFinite
    · simp only [hDecimal, Option.some.injEq] at hParse
      rw [← hParse] at hFinite ⊢
      exact ⟨d, Decimal.parse?_eq_some_iff.mp hDecimal,
        rounds_ofDecimal d hBits, hFinite⟩
  · rintro ⟨d, hNumeral, hRounds, hFinite⟩
    have hSame := hRounds.unique (rounds_ofDecimal d hBits)
    simp only [Decimal.parse?_eq_some_iff.mpr hNumeral]
    exact ⟨congrArg some hSame.symm, hFinite⟩

end Number

------------------------------------------------------------
-- Words of Scripts
------------------------------------------------------------

/-
  What a word is as a number. It is a number token if and only
  if it is a decimal numeral. It can be an integer if it is
  one of 64 bits, and a number of 32 bits if it is rounded to
  a finite one, which are the numerals below the middle
  between the largest one and the next power of two.
-/
structure Token.AgreesOnNumbers (t : Token) : Prop where
  number :
    t.kind = .number ↔ ∃ d, Numeral d t.text.toList
  ident :
    t.kind = .ident →
      ScalarType.int.convert? t.text = none
        ∧ ScalarType.float.convert? t.text = none
  int :
    ∀ v,
      ScalarType.int.convert? t.text = some v
        ↔ t.kind = .number
          ∧ ∃ n : Int64,
              Signed n.toInt t.text.toList ∧ v = .int n
  int_range :
    (ScalarType.int.convert? t.text).isSome = true
      ↔ t.kind = .number
        ∧ ∃ n,
            Signed n t.text.toList ∧ -2 ^ 63 ≤ n ∧ n < 2 ^ 63
  float :
    ∀ v,
      ScalarType.float.convert? t.text = some v
        ↔ t.kind = .number
          ∧ ∃ (d : Number.Decimal) (x : Single),
              Numeral d t.text.toList
                ∧ x.Rounds d
                ∧ x.isFinite = true
                ∧ v = .float x
  float_range :
    (ScalarType.float.convert? t.text).isSome = true
      ↔ t.kind = .number
        ∧ ∃ d,
            Numeral d t.text.toList
              ∧ d.size < 2 ^ 128 - 2 ^ 103

namespace Token

variable {t : Token}

theorem int_iff
    (hKind : wordKind t.text.toList = t.kind)
    (v : Value) :
    ScalarType.int.convert? t.text = some v
      ↔ t.kind = .number
        ∧ ∃ n : Int64,
            Signed n.toInt t.text.toList ∧ v = .int n := by
  rw [ScalarType.convert?, Option.map_eq_some_iff, ← hKind,
    wordKind_eq_number_iff]
  constructor
  · rintro ⟨n, hParse, rfl⟩
    have hSigned := Number.Whole.parse?_eq_some_iff.mp hParse
    exact ⟨hSigned.numeral, n, hSigned, rfl⟩
  · rintro ⟨-, n, hSigned, rfl⟩
    exact ⟨n, Number.Whole.parse?_eq_some_iff.mpr hSigned, rfl⟩

theorem float_iff
    (hKind : wordKind t.text.toList = t.kind)
    (v : Value) :
    ScalarType.float.convert? t.text = some v
      ↔ t.kind = .number
        ∧ ∃ (d : Number.Decimal) (x : Single),
            Numeral d t.text.toList
              ∧ x.Rounds d
              ∧ x.isFinite = true
              ∧ v = .float x := by
  have hFinite :
      ∀ x : Single,
        ScalarType.number? t.text.toList = some x
          ↔ ∃ d,
              Numeral d t.text.toList
                ∧ x.Rounds d
                ∧ x.isFinite = true :=
    fun x => Number.Binary.parseFinite?_eq_some_iff (by decide)
  rw [ScalarType.convert?, Option.map_eq_some_iff, ← hKind,
    wordKind_eq_number_iff]
  constructor
  · rintro ⟨x, hParse, rfl⟩
    rcases (hFinite x).mp hParse with
      ⟨d, hNumeral, hRounds, hSome⟩
    exact ⟨⟨d, hNumeral⟩, d, x, hNumeral, hRounds, hSome, rfl⟩
  · rintro ⟨-, d, x, hNumeral, hRounds, hSome, rfl⟩
    exact ⟨x, (hFinite x).mpr ⟨d, hNumeral, hRounds, hSome⟩, rfl⟩

/- A text whose kind is that of a word agrees on numbers. -/
theorem agreesOnNumbers
    (hKind : wordKind t.text.toList = t.kind) :
    t.AgreesOnNumbers where
  number := by
    rw [← hKind]
    exact wordKind_eq_number_iff
  ident := by
    intro hIdent
    have hNot : t.kind ≠ .number := by
      simp [hIdent]
    constructor
    · rw [Option.eq_none_iff_forall_ne_some]
      intro v hSome
      exact hNot ((int_iff hKind v).mp hSome).1
    · rw [Option.eq_none_iff_forall_ne_some]
      intro v hSome
      exact hNot ((float_iff hKind v).mp hSome).1
  int := int_iff hKind
  int_range := by
    rw [ScalarType.convert?, Option.isSome_map,
      Number.Whole.isSome_parse?_iff, ← hKind,
      wordKind_eq_number_iff]
    constructor
    · rintro ⟨n, hSigned, hRange⟩
      exact ⟨hSigned.numeral, n, hSigned, hRange⟩
    · rintro ⟨-, hRange⟩
      exact hRange
  float := float_iff hKind
  float_range := by
    rw [Option.isSome_iff_exists]
    constructor
    · rintro ⟨v, hSome⟩
      rcases (float_iff hKind v).mp hSome with
        ⟨hNumber, d, x, hNumeral, hRounds, hFinite, -⟩
      exact ⟨hNumber, d, hNumeral,
        (Number.Single.isFinite_iff hRounds).mp hFinite⟩
    · rintro ⟨hNumber, d, hNumeral, hSize⟩
      have hRounds :=
        Number.Binary.rounds_ofDecimal
          (f := Number.Format.single) d (by decide)
      have hFinite :=
        (Number.Single.isFinite_iff hRounds).mpr hSize
      exact ⟨_, (float_iff hKind _).mpr
        ⟨hNumber, d, _, hNumeral, hRounds, hFinite, rfl⟩⟩

end Token

/-
  The lexer and the conversion of values agree on which words
  are numbers, and on which numbers they are.
-/
theorem tokenize_numbers
    (source : String) :
    ∀ t ∈ (tokenize source).1,
      t.kind = .ident ∨ t.kind = .number →
        t.AgreesOnNumbers := by
  intro t ht hWord
  rcases (tiling_tokenize source).stands t ht with
    ⟨before, slice, after, -, hStands⟩
  rcases hStands.word hWord with ⟨-, -, -, hKind, -⟩
  have hString : t.kind ≠ .str := by
    rcases hWord with h | h <;> simp [h]
  rw [← hStands.text hString] at hKind
  exact Token.agreesOnNumbers hKind

/- A number too large for 32 bits, behind a word for one. -/
theorem tokenize_numbers_large :
    let t : Token :=
      { kind := .number,
        text := "+3.5e38",
        span := { start := 5, stop := 12 },
        location := { line := 1, column := 6 } }
    t ∈ (tokenize "-inf +3.5e38").1
      ∧ (t.kind = .ident ∨ t.kind = .number)
      ∧ t.AgreesOnNumbers := by
  intro t
  have ht : t ∈ (tokenize "-inf +3.5e38").1 := by
    decide +kernel
  exact ⟨ht, .inr rfl, tokenize_numbers _ t ht (.inr rfl)⟩

end BlockScript
