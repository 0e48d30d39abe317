import BlockScript.Number.Decimal
import BlockScript.Number.Rounding

/-
  This file defines binary floating-point numbers of any
  width and the rounding of exact numbers to them.

  The finite magnitudes of a format are numbered upward from
  zero, so that a magnitude is a natural number below
  `Format.limit`. Their sizes are whole multiples of one
  smallest unit, which keeps all arithmetic on natural
  numbers.

  Key definitions include:
    * `Format`
    * `Format.limit`
    * `Format.units`
    * `Format.nearest`
    * `Binary`
    * `Binary.ofDecimal`
    * `Binary.parse?`
    * `Single`
    * `Double`
-/

namespace BlockScript
namespace Number

------------------------------------------------------------
-- Formats
------------------------------------------------------------

/- The widths of the two parts of a binary number. -/
structure Format where
  fractionBits : Nat
  exponentBits : Nat
deriving DecidableEq

namespace Format

/- 32-bit numbers. -/
def single : Format :=
  { fractionBits := 23, exponentBits := 8 }

/- 64-bit numbers. -/
def double : Format :=
  { fractionBits := 52, exponentBits := 11 }

/- How many magnitudes share one binary exponent. -/
def binade (f : Format) : Nat :=
  Nat.pow 2 f.fractionBits

/- How many finite magnitudes a format has. -/
def limit (f : Format) : Nat :=
  (Nat.pow 2 f.exponentBits - 1) * f.binade

/- The smallest unit is two to the power `-unitScale`. -/
def unitScale (f : Format) : Nat :=
  Nat.pow 2 (f.exponentBits - 1) - 2 + f.fractionBits

/- The size of the magnitude with number `k`, in units. -/
def units (f : Format) (k : Nat) : Nat :=
  if k < f.binade then
    k
  else
    (f.binade + k % f.binade)
      * Nat.pow 2 (k / f.binade - 1)

/-
  The number of the magnitude nearest to a quotient, a
  halfway one going to the even number. A result at or above
  `limit` stands for a quotient too large for the format.
-/
def nearest
    (f : Format)
    (dividend divisor : Nat) : Nat :=
  let scaled := dividend * Nat.pow 2 f.unitScale
  let shift := (scaled / divisor).log2 - f.fractionBits
  shift * f.binade
    + roundDiv .even scaled (divisor * Nat.pow 2 shift)

end Format

------------------------------------------------------------
-- Binary Numbers
------------------------------------------------------------

/-
  A binary number of some format. Zero has a sign.
-/
inductive Binary (f : Format) where
  | nan
  | infinite (negative : Bool)
  | finite (negative : Bool) (magnitude : Fin f.limit)
deriving DecidableEq

/- Numbers of 32 bits. -/
abbrev Single :=
  Binary Format.single

/- Numbers of 64 bits. -/
abbrev Double :=
  Binary Format.double

namespace Binary

variable {f : Format}

/- Whether a number is neither infinite nor a NaN. -/
def isFinite : Binary f → Bool
  | finite _ _ => true
  | _ => false

/- The signed number whose magnitude has number `k`. -/
def ofMagnitude
    (negative : Bool)
    (k : Nat) : Binary f :=
  if h : k < f.limit then
    finite negative ⟨k, h⟩
  else
    infinite negative

/- The signed number nearest to a quotient. -/
def ofRatio
    (negative : Bool)
    (dividend divisor : Nat) : Binary f :=
  ofMagnitude negative (f.nearest dividend divisor)

/-
  The number nearest to a decimal numeral. Exponents so large
  or so small that the answer is already known are not
  expanded.
-/
def ofDecimal (d : Decimal) : Binary f :=
  if d.coefficient = 0 then
    ofMagnitude d.negative 0
  else
    match d.exponent with
    | .ofNat power =>
        if Nat.pow 2 f.exponentBits < power then
          infinite d.negative
        else
          ofRatio d.negative
            (d.coefficient * Nat.pow 10 power) 1
    | .negSucc n =>
        let power := n + 1
        if d.coefficient.log2 + f.unitScale + 2 ≤ 3 * power then
          ofMagnitude d.negative 0
        else
          ofRatio d.negative d.coefficient (Nat.pow 10 power)

/- The number nearest to an integer. -/
def ofInt (n : Int) : Binary f :=
  ofRatio (n < 0) n.natAbs 1

/- The words for numbers that are not finite. -/
def ofWord? (text : List Char) : Option (Binary f) :=
  let (negative, word) := splitSign text
  let word := String.ofList (word.map Char.toLower)
  if word == "nan" then
    some nan
  else if word == "inf" || word == "infinity" then
    some (infinite negative)
  else
    none

/-
  The number that a text names: a decimal numeral, or a word
  for a number that is not finite.
-/
def parse? (text : List Char) : Option (Binary f) :=
  match Decimal.parse? text with
  | some d => some (ofDecimal d)
  | none => ofWord? text

/- The number that a text names, if it is finite. -/
def parseFinite? (text : List Char) : Option (Binary f) :=
  (parse? text).filter isFinite

end Binary
end Number
end BlockScript
