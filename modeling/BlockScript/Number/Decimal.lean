/-
  This file defines decimal numerals and their grammar: an
  optional sign, digits with an optional point and at least
  one digit on some side of it, and an optional exponent.

  Key definitions include:
    * `Decimal`
    * `Decimal.parse?`
    * `Decimal.isNumeral`
    * `Decimal.stripZeros`
-/

namespace BlockScript
namespace Number

------------------------------------------------------------
-- Signs
------------------------------------------------------------

/- An optional sign in front, and whether it is a minus. -/
def splitSign : List Char → Bool × List Char
  | '-' :: rest => (true, rest)
  | '+' :: rest => (false, rest)
  | rest => (false, rest)

/- The number that a run of decimal digits stands for. -/
def ofDigits (digits : List Char) : Nat :=
  Nat.ofDigitChars 10 digits 0

------------------------------------------------------------
-- Decimal Numerals
------------------------------------------------------------

/-
  The number `coefficient * 10 ^ exponent`, or its negation.
-/
structure Decimal where
  negative : Bool
  coefficient : Nat
  exponent : Int
deriving DecidableEq

namespace Decimal

/-
  The digits before and after the point, and what follows
  them. The point itself may be absent.
-/
def splitDigits
    (text : List Char) :
    List Char × List Char × List Char :=
  let whole := text.takeWhile Char.isDigit
  match text.dropWhile Char.isDigit with
  | '.' :: rest =>
      (whole, rest.takeWhile Char.isDigit,
        rest.dropWhile Char.isDigit)
  | rest => (whole, [], rest)

/- A signed run of at least one digit, and nothing else. -/
def parseSigned? (text : List Char) : Option Int :=
  let (negative, digits) := splitSign text
  if digits.isEmpty || !digits.all Char.isDigit then
    none
  else
    let n := (ofDigits digits : Int)
    some (if negative then -n else n)

/-
  The power of ten that an exponent part stands for. An
  absent part stands for zero.
-/
def parseExponent? : List Char → Option Int
  | [] => some 0
  | mark :: rest =>
      if mark == 'e' || mark == 'E' then
        parseSigned? rest
      else
        none

/- The numeral that a text is, if it is one. -/
def parse? (text : List Char) : Option Decimal :=
  let (negative, unsigned) := splitSign text
  let (whole, fraction, rest) := splitDigits unsigned
  if whole.isEmpty && fraction.isEmpty then
    none
  else
    (parseExponent? rest).map fun power =>
      { negative,
        coefficient := ofDigits (whole ++ fraction),
        exponent := power - fraction.length }

/- Whether a text is a numeral. -/
def isNumeral (text : List Char) : Bool :=
  (parse? text).isSome

/-
  The same number with no zero at the end of its
  coefficient.
-/
def stripZeros
    (coefficient : Nat)
    (exponent : Int) : Nat × Int :=
  if coefficient ≠ 0 ∧ coefficient % 10 = 0 then
    stripZeros (coefficient / 10) (exponent + 1)
  else
    (coefficient, exponent)
termination_by coefficient

end Decimal
end Number
end BlockScript
