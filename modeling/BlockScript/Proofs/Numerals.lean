import BlockScript.Number.Layout
import BlockScript.Number.Whole
import BlockScript.Proofs.NumeralGrammar

/-
  This file shows that numbers are read back from their text:
  the numeral that is written for a number rounds to it, and
  setting out the digits of a numeral does not change what it
  stands for.

  Key theorems include:
    * `Format.nearest_units`
    * `Format.roundsTo_shortest`
    * `Binary.parse?_positional`
    * `Binary.parseFinite?_text`
    * `Whole.parse?_text`
-/

namespace BlockScript
namespace Number

------------------------------------------------------------
-- Rounding Exact Numbers
------------------------------------------------------------

/- A quotient without remainder is not rounded. -/
theorem roundDiv_mul
    {divisor : Nat}
    (tie : Tie)
    (quotient : Nat)
    (hDivisor : 0 < divisor) :
    roundDiv tie (quotient * divisor) divisor = quotient := by
  have hFloor := Nat.mul_div_cancel quotient hDivisor
  have hRemainder : quotient * divisor % divisor = 0 :=
    Nat.mul_mod_left quotient divisor
  have hCompare : compare 0 divisor = .lt :=
    Nat.compare_eq_lt.mpr hDivisor
  simp [roundDiv, roundsUp, hFloor, hRemainder, hCompare]

namespace Format

variable {f : Format}

theorem binade_pos : 0 < f.binade :=
  Nat.pow_pos (by decide)

/- In the first binade, magnitudes are counted in units. -/
theorem shift_of_lt
    {k : Nat}
    (hLess : k < f.binade) :
    k.log2 - f.fractionBits = 0 := by
  by_cases hZero : k = 0
  · simp [hZero]
  · have hLog : k.log2 < f.fractionBits :=
      (Nat.log2_lt hZero).mpr hLess
    omega

/- Above, the binade tells the power of two. -/
theorem shift_of_le
    {k : Nat}
    (hLe : f.binade ≤ k) :
    (f.units k).log2 - f.fractionBits = k / f.binade - 1 := by
  have hPositive := f.binade_pos
  have hMod : k % f.binade < f.binade := Nat.mod_lt _ hPositive
  have hUnits :
      f.units k
        = (f.binade + k % f.binade)
            * Nat.pow 2 (k / f.binade - 1) :=
    if_neg (by omega)
  generalize k / f.binade - 1 = e at hUnits ⊢
  have hPower : 0 < Nat.pow 2 e := Nat.pow_pos (by decide)
  have hLog : (f.units k).log2 = f.fractionBits + e := by
    have hLower :
        f.binade * Nat.pow 2 e ≤ f.units k := by
      rw [hUnits]
      exact Nat.mul_le_mul_right _ (by omega)
    have hUpper :
        f.units k < f.binade * Nat.pow 2 e * 2 := by
      rw [hUnits, Nat.mul_right_comm]
      exact Nat.mul_lt_mul_of_pos_right (by omega) hPower
    have hNonzero : f.units k ≠ 0 := by
      have hBoth := Nat.mul_pos hPositive hPower
      omega
    rw [Nat.log2_eq_iff hNonzero, Nat.pow_succ, Nat.pow_add]
    exact ⟨hLower, hUpper⟩
  omega

/- The exact value of a magnitude is nearest to it. -/
theorem nearest_units
    (f : Format)
    (k divisor : Nat)
    (hDivisor : 0 < divisor)
    (dividend : Nat)
    (hExact :
      dividend * Nat.pow 2 f.unitScale = f.units k * divisor) :
    f.nearest dividend divisor = k := by
  have hPositive := f.binade_pos
  have hQuotient : f.units k * divisor / divisor = f.units k :=
    Nat.mul_div_cancel _ hDivisor
  simp only [nearest, hExact, hQuotient]
  by_cases hLess : k < f.binade
  · have hUnits : f.units k = k := if_pos hLess
    have hOne : divisor * Nat.pow 2 0 = divisor :=
      Nat.mul_one divisor
    rw [hUnits, shift_of_lt hLess, hOne,
      roundDiv_mul _ _ hDivisor]
    omega
  · have hLe : f.binade ≤ k := by omega
    have hUnits :
        f.units k * divisor
          = (f.binade + k % f.binade)
              * (divisor * Nat.pow 2 (k / f.binade - 1)) := by
      rw [units, if_neg hLess]
      ac_rfl
    have hScale :
        0 < divisor * Nat.pow 2 (k / f.binade - 1) :=
      Nat.mul_pos hDivisor (Nat.pow_pos (by decide))
    rw [shift_of_le hLe, hUnits, roundDiv_mul _ _ hScale]
    -- The number of a magnitude is its binade and its place.
    have hPlace := Nat.div_add_mod k f.binade
    have hBinade : 0 < k / f.binade := Nat.div_pos hLe hPositive
    rw [Nat.sub_mul, Nat.one_mul, Nat.mul_comm] 
    have hGrow := Nat.le_mul_of_pos_right f.binade hBinade
    omega

end Format

------------------------------------------------------------
-- Numerals That Round to a Number
------------------------------------------------------------

namespace Binary

variable {f : Format}

theorem ofMagnitude_of_lt
    {k : Nat}
    (negative : Bool)
    (hLimit : k < f.limit) :
    (ofMagnitude negative k : Binary f)
      = finite negative ⟨k, hLimit⟩ :=
  dif_pos hLimit

/- The sign of a numeral has no part in its size. -/
theorem ofDecimal_sign
    (coefficient : Nat)
    (exponent : Int) :
    (∀ negative,
      (ofDecimal ⟨negative, coefficient, exponent⟩ : Binary f)
        = infinite negative)
      ∨ ∃ k,
          ∀ negative,
            (ofDecimal ⟨negative, coefficient, exponent⟩
                : Binary f)
              = ofMagnitude negative k := by
  by_cases hZero : coefficient = 0
  · exact .inr ⟨0, fun negative => if_pos hZero⟩
  · simp only [ofDecimal, if_neg hZero]
    cases exponent with
    | ofNat power =>
        by_cases hLarge : Nat.pow 2 f.exponentBits < power
        · exact .inl fun negative => if_pos hLarge
        · exact .inr ⟨_, fun negative => if_neg hLarge⟩
    | negSucc n =>
        by_cases hSmall :
            coefficient.log2 + f.unitScale + 2 ≤ 3 * (n + 1)
        · exact .inr ⟨_, fun negative => if_pos hSmall⟩
        · exact .inr ⟨_, fun negative => if_neg hSmall⟩

end Binary

namespace Format

variable {f : Format}

/- A numeral that rounds to a magnitude does so signed. -/
theorem ofDecimal_of_roundsTo
    {k coefficient : Nat}
    {exponent : Int}
    (negative : Bool)
    (hLimit : k < f.limit)
    (hRounds : f.roundsTo k (coefficient, exponent) = true) :
    (Binary.ofDecimal ⟨negative, coefficient, exponent⟩
        : Binary f)
      = .finite negative ⟨k, hLimit⟩ := by
  unfold roundsTo at hRounds
  rcases Binary.ofDecimal_sign (f := f) coefficient exponent with
    hLarge | ⟨j, hSize⟩
  · simp [hLarge] at hRounds
  · simp only [hSize] at hRounds ⊢
    by_cases hj : j < f.limit
    · rw [Binary.ofMagnitude_of_lt _ hj] at hRounds ⊢
      obtain rfl : j = k := by simpa using hRounds
      rfl
    · simp [Binary.ofMagnitude, hj] at hRounds

/- A magnitude is one unit at least. -/
theorem units_pos
    {k : Nat}
    (hPositive : 0 < k) :
    0 < f.units k := by
  have hBinade := f.binade_pos
  unfold units
  split
  · exact hPositive
  · exact Nat.mul_pos (by omega) (Nat.pow_pos (by decide))

/-
  The exact value of a magnitude is not so small that it is
  not expanded.
-/
theorem log2_exactCoefficient
    {k : Nat}
    (hPositive : 0 < k) :
    2 * f.unitScale ≤ (f.exactCoefficient k).log2 := by
  have hUnits := f.units_pos hPositive
  have hFive : 0 < Nat.pow 5 f.unitScale :=
    Nat.pow_pos (by decide)
  have hFour : Nat.pow 4 f.unitScale ≤ Nat.pow 5 f.unitScale :=
    Nat.pow_le_pow_left (by decide) _
  have hLe := Nat.le_mul_of_pos_left (Nat.pow 5 f.unitScale) hUnits
  have hNonzero : f.exactCoefficient k ≠ 0 :=
    Nat.ne_of_gt (Nat.mul_pos hUnits hFive)
  rw [Nat.le_log2 hNonzero, Nat.pow_mul]
  exact Nat.le_trans hFour hLe

/- The exact value of a magnitude rounds to it. -/
theorem roundsTo_exact
    {k : Nat}
    (hScale : 0 < f.unitScale)
    (hPositive : 0 < k)
    (hLimit : k < f.limit) :
    f.roundsTo k (f.exact k) = true := by
  obtain ⟨n, hn⟩ : ∃ n, f.unitScale = n + 1 :=
    ⟨f.unitScale - 1, by omega⟩
  have hFive : 0 < Nat.pow 5 f.unitScale :=
    Nat.pow_pos (by decide)
  have hLog := log2_exactCoefficient (f := f) hPositive
  have hNonzero : f.exactCoefficient k ≠ 0 :=
    Nat.ne_of_gt (Nat.mul_pos (f.units_pos hPositive) hFive)
  have hSmall :
      ¬ (f.exactCoefficient k).log2 + f.unitScale + 2
          ≤ 3 * (n + 1) := by
    omega
  have hTen : 0 < Nat.pow 10 (n + 1) := Nat.pow_pos (by decide)
  have hNearest :
      f.nearest (f.exactCoefficient k) (Nat.pow 10 (n + 1))
        = k := by
    refine f.nearest_units k _ hTen _ ?_
    rw [exactCoefficient, Nat.mul_assoc, ← hn]
    exact congrArg _ (Nat.mul_pow 5 2 f.unitScale).symm
  have hExponent : -(f.unitScale : Int) = Int.negSucc n := by
    rw [hn]
    rfl
  simp only [roundsTo, exact, hExponent, Binary.ofDecimal,
    if_neg hNonzero, if_neg hSmall, Binary.ofRatio, hNearest,
    Binary.ofMagnitude_of_lt _ hLimit]
  exact beq_self_eq_true k

/- The shortest numeral for a magnitude rounds to it. -/
theorem roundsTo_shortest
    {k : Nat}
    (tie : Tie)
    (hScale : 0 < f.unitScale)
    (hPositive : 0 < k)
    (hLimit : k < f.limit) :
    f.roundsTo k (f.shortest tie k) = true := by
  unfold shortest
  simp only
  generalize
    (Nat.toDigits 10 (f.exactCoefficient k)).length = length
  cases hFound :
      (List.range length).findSome? fun kept =>
        f.cut? tie k (length - 1 - kept) with
  | none => exact roundsTo_exact hScale hPositive hLimit
  | some numeral =>
      obtain ⟨kept, -, hCut⟩ :=
        List.exists_of_findSome?_eq_some hFound
      exact List.find?_some hCut

/- Zero alone has the coefficient zero. -/
theorem coefficient_of_roundsTo
    {k coefficient : Nat}
    {exponent : Int}
    (hPositive : 0 < k)
    (hRounds : f.roundsTo k (coefficient, exponent) = true) :
    coefficient ≠ 0 := by
  rintro rfl
  by_cases hLimit : 0 < f.limit
  · simp [roundsTo, Binary.ofDecimal,
      Binary.ofMagnitude_of_lt _ hLimit] at hRounds
    omega
  · simp [roundsTo, Binary.ofDecimal, Binary.ofMagnitude,
      hLimit] at hRounds

end Format
------------------------------------------------------------
-- Digits
------------------------------------------------------------

theorem isDigit_toDigits
    (n : Nat) :
    ∀ c ∈ Nat.toDigits 10 n, c.isDigit = true :=
  fun _ hc => Nat.isDigit_of_mem_toDigits (by decide)
    (by decide) hc

theorem sign_signText
    (negative : Bool) :
    Sign negative (Binary.signText negative) := by
  cases negative with
  | true => exact .minus
  | false => exact .absent

namespace Decimal

/- Digits alone are all before the point. -/
theorem parse?_whole
    {whole : List Char}
    (negative : Bool)
    (hSome : whole ≠ [])
    (hWhole : IsDigits whole) :
    parse? (Binary.signText negative ++ whole)
      = some ⟨negative, ofDigits whole, 0⟩ := by
  have hNumeral :=
    Numeral.parts (sign_signText negative) (.whole hWhole)
      (by simpa using hSome) .absent
  simpa using parse?_eq_some_iff.mpr hNumeral

/- Digits are split at the point. -/
theorem parse?_point
    (negative : Bool)
    (whole fraction : List Char)
    (hSome : whole ≠ [])
    (hWhole : IsDigits whole)
    (hFraction : IsDigits fraction) :
    parse? (Binary.signText negative ++ (whole ++ '.' :: fraction))
      = some ⟨negative, ofDigits (whole ++ fraction),
          -(fraction.length : Int)⟩ := by
  have hNumeral :=
    Numeral.parts (sign_signText negative)
      (.point hWhole hFraction) (by simp [hSome]) .absent
  simpa using parse?_eq_some_iff.mpr hNumeral

end Decimal

/- Zeros in front do not count. -/
theorem ofDigits_zeros
    (n zeros : Nat) :
    ofDigits (List.replicate zeros '0' ++ Nat.toDigits 10 n)
      = n := by
  rw [ofDigits, Nat.ofDigitChars_append,
    Nat.ofDigitChars_replicate_zero, Nat.mul_zero,
    Nat.ofDigitChars_ten_toDigits]

/- Zeros behind are powers of ten. -/
theorem ofDigits_append_zeros
    (n zeros : Nat) :
    ofDigits (Nat.toDigits 10 n ++ List.replicate zeros '0')
      = n * Nat.pow 10 zeros := by
  rw [ofDigits, Nat.ofDigitChars_append,
    Nat.ofDigitChars_ten_toDigits,
    Nat.ofDigitChars_replicate_zero, Nat.mul_comm]
  rfl

namespace Decimal

theorem isDigit_zeros
    (n : Nat) :
    ∀ c ∈ List.replicate n '0', c.isDigit = true := by
  intro c hc
  rw [(List.mem_replicate.mp hc).2]
  decide

/- Zeros written out behind count as a power of ten. -/
theorem parse?_positional_ofNat
    (negative : Bool)
    (coefficient zeros : Nat) :
    parse? (Binary.signText negative
        ++ Layout.plain.positional
            (Nat.toDigits 10 coefficient) (.ofNat zeros))
      = some ⟨negative, coefficient * Nat.pow 10 zeros, 0⟩ := by
  have hSome :
      Nat.toDigits 10 coefficient ++ List.replicate zeros '0'
        ≠ [] := by
    simp [Nat.toDigits_ne_nil]
  have hDigits :
      ∀ c ∈ Nat.toDigits 10 coefficient
          ++ List.replicate zeros '0',
        c.isDigit = true := by
    intro c hc
    rcases List.mem_append.mp hc with hc | hc
    · exact isDigit_toDigits coefficient c hc
    · exact isDigit_zeros zeros c hc
  have hParse := parse?_whole negative hSome hDigits
  rw [ofDigits_append_zeros] at hParse
  simp only [Layout.positional, Layout.plain,
    Bool.false_eq_true, if_false, List.append_nil, hParse]

/- A point among or before the digits counts their places. -/
theorem parse?_positional_negSucc
    (negative : Bool)
    (coefficient n : Nat) :
    parse? (Binary.signText negative
        ++ Layout.plain.positional
            (Nat.toDigits 10 coefficient) (.negSucc n))
      = some ⟨negative, coefficient, .negSucc n⟩ := by
  have hDigits := isDigit_toDigits coefficient
  have hSome : Nat.toDigits 10 coefficient ≠ [] :=
    Nat.toDigits_ne_nil
  have hValue :
      ofDigits (Nat.toDigits 10 coefficient) = coefficient :=
    Nat.ofDigitChars_ten_toDigits
  generalize hText : Nat.toDigits 10 coefficient = digits at *
  simp only [Layout.positional]
  by_cases hLess : n + 1 < digits.length
  · have hWhole :
        digits.take (digits.length - (n + 1)) ≠ [] := by
      simp only [ne_eq, List.take_eq_nil_iff, hSome, or_false]
      omega
    have hParse :=
      parse?_point negative
        (digits.take (digits.length - (n + 1)))
        (digits.drop (digits.length - (n + 1))) hWhole
        (fun c hc => hDigits c (List.mem_of_mem_take hc))
        (fun c hc => hDigits c (List.mem_of_mem_drop hc))
    have hLength :
        digits.length - (digits.length - (n + 1)) = n + 1 := by
      omega
    rw [List.take_append_drop, hValue, List.length_drop,
      hLength] at hParse
    rw [if_pos hLess]
    exact hParse
  · have hFraction :
        ∀ c ∈ List.replicate (n + 1 - digits.length) '0'
            ++ digits,
          c.isDigit = true := by
      intro c hc
      rcases List.mem_append.mp hc with hc | hc
      · exact isDigit_zeros _ c hc
      · exact hDigits c hc
    have hParse :=
      parse?_point negative ['0'] _
        (List.cons_ne_nil '0' []) (isDigit_zeros 1) hFraction
    have hCoefficient :
        ofDigits
            (['0'] ++ (List.replicate
              (n + 1 - digits.length) '0' ++ digits))
          = coefficient := by
      rw [← hText, ← List.append_assoc]
      exact ofDigits_zeros coefficient (_ + 1)
    have hLength :
        n + 1 - digits.length + digits.length = n + 1 := by
      omega
    rw [hCoefficient, List.length_append,
      List.length_replicate, hLength,
      List.singleton_append] at hParse
    rw [if_neg hLess]
    exact hParse

end Decimal

------------------------------------------------------------
-- Numbers Read Back
------------------------------------------------------------

namespace Binary

variable {f : Format}

/- A power of ten may be written out. -/
theorem ofDecimal_mul
    {negative : Bool}
    {coefficient power : Nat}
    {k : Fin f.limit}
    (hFinite :
      (ofDecimal ⟨negative, coefficient, .ofNat power⟩
          : Binary f)
        = finite negative k) :
    (ofDecimal ⟨negative, coefficient * Nat.pow 10 power, 0⟩
        : Binary f)
      = finite negative k := by
  have hTen : 0 < Nat.pow 10 power := Nat.pow_pos (by decide)
  by_cases hZero : coefficient = 0
  · subst hZero
    simpa [ofDecimal] using hFinite
  · have hNonzero : coefficient * Nat.pow 10 power ≠ 0 :=
      Nat.ne_of_gt (Nat.mul_pos (by omega) hTen)
    have hSmall : ¬ Nat.pow 2 f.exponentBits < 0 := by omega
    have hOne :
        coefficient * Nat.pow 10 power * Nat.pow 10 0
          = coefficient * Nat.pow 10 power :=
      Nat.mul_one _
    rw [ofDecimal, if_neg hZero] at hFinite
    simp only at hFinite
    split at hFinite
    · simp at hFinite
    · rw [ofDecimal, if_neg hNonzero]
      change
        (if Nat.pow 2 f.exponentBits < 0 then _
          else ofRatio negative
            (coefficient * Nat.pow 10 power * Nat.pow 10 0) 1)
          = _
      rw [if_neg hSmall, hOne]
      exact hFinite

/-
  The digits of a numeral, set out in any way, are read as a
  numeral for the same number.
-/
theorem parse?_positional
    {coefficient : Nat}
    {exponent : Int}
    {k : Fin f.limit}
    (negative : Bool)
    (hFinite :
      (ofDecimal ⟨negative, coefficient, exponent⟩ : Binary f)
        = finite negative k) :
    (parse? (signText negative
        ++ Layout.plain.positional
            (Nat.toDigits 10 coefficient) exponent)
        : Option (Binary f))
      = some (finite negative k) := by
  cases exponent with
  | ofNat zeros =>
      simp only [parse?, Decimal.parse?_positional_ofNat,
        ofDecimal_mul hFinite]
  | negSucc n =>
      simp only [parse?, Decimal.parse?_positional_negSucc,
        hFinite]

theorem text_zero
    (negative : Bool)
    (hLimit : 0 < f.limit) :
    (finite negative ⟨0, hLimit⟩ : Binary f).text
      = signText negative
          ++ Layout.plain.positional (Nat.toDigits 10 0) 0 := by
  simp only [text, finiteText, Layout.magnitude, if_true,
    Layout.decimal]

/- A number is written as its shortest numeral. -/
theorem text_of_shortest
    {k m : Nat}
    {e : Int}
    (negative : Bool)
    (hLimit : k < f.limit)
    (hPositive : 0 < k)
    (hNumeral : f.shortest .up k = (m, e))
    (hNonzero : m ≠ 0) :
    (finite negative ⟨k, hLimit⟩ : Binary f).text
      = signText negative
          ++ Layout.plain.positional (Nat.toDigits 10 m) e := by
  have hZero : k ≠ 0 := Nat.ne_of_gt hPositive
  have hTie : Layout.plain.tie = .up := rfl
  simp only [text, finiteText, Layout.magnitude, if_neg hZero,
    Layout.decimal, hTie, hNumeral, if_neg hNonzero]
  rfl

/- A finite number is read back from its text. -/
theorem parseFinite?_text
    {x : Binary f}
    (hScale : 0 < f.unitScale)
    (hFinite : x.isFinite = true) :
    parseFinite? x.text = some x := by
  cases x with
  | nan => simp [isFinite] at hFinite
  | infinite negative => simp [isFinite] at hFinite
  | finite negative k =>
      suffices hParse :
          (parse? (finite negative k).text : Option (Binary f))
            = some (finite negative k) by
        simp [parseFinite?, hParse, Option.filter, isFinite]
      rcases k with ⟨k, hLimit⟩
      by_cases hZero : k = 0
      · subst hZero
        have hDecimal :
            (ofDecimal ⟨negative, 0, 0⟩ : Binary f)
              = finite negative ⟨0, hLimit⟩ :=
          ofMagnitude_of_lt negative hLimit
        rw [text_zero]
        exact parse?_positional negative hDecimal
      · have hPositive : 0 < k := Nat.pos_of_ne_zero hZero
        have hRounds :=
          Format.roundsTo_shortest (f := f) .up hScale
            hPositive hLimit
        rcases hNumeral : f.shortest .up k with ⟨m, e⟩
        rw [hNumeral] at hRounds
        have hNonzero :=
          Format.coefficient_of_roundsTo hPositive hRounds
        rw [text_of_shortest negative hLimit hPositive hNumeral
          hNonzero]
        exact parse?_positional negative
          (Format.ofDecimal_of_roundsTo negative hLimit hRounds)

end Binary

------------------------------------------------------------
-- Integers Read Back
------------------------------------------------------------

theorem Whole.textOfInt_eq
    (n : Int) :
    textOfInt n
      = Binary.signText (n < 0) ++ Nat.toDigits 10 n.natAbs := by
  unfold textOfInt Binary.signText
  by_cases hNegative : n < 0 <;> simp [hNegative]

theorem parseSigned?_textOfInt
    (n : Int) :
    Decimal.parseSigned? (Whole.textOfInt n) = some n := by
  have hValue :
      ofDigits (Nat.toDigits 10 n.natAbs) = n.natAbs :=
    Nat.ofDigitChars_ten_toDigits
  have hSign :
      (if decide (n < 0) = true then -(n.natAbs : Int)
        else n.natAbs) = n := by
    simp only [decide_eq_true_eq]
    split <;> omega
  have hSigned :=
    Decimal.Signed.digits (sign_signText (n < 0))
      Nat.toDigits_ne_nil (isDigit_toDigits n.natAbs)
  rw [hValue, hSign, ← Whole.textOfInt_eq] at hSigned
  exact Decimal.parseSigned?_eq_some_iff.mpr hSigned

theorem Whole.isInRange_toInt
    (n : Int64) :
    isInRange n.toInt = true := by
  unfold isInRange
  rw [Bool.and_eq_true]
  exact ⟨decide_eq_true n.minValue_le_toInt,
    decide_eq_true n.toInt_le⟩

/- An integer of 64 bits is read back from its text. -/
theorem Whole.parse?_text
    (n : Int64) :
    parse? (text n) = some n := by
  simp [parse?, text, parseSigned?_textOfInt, isInRange_toInt]

end Number
end BlockScript
