import BlockScript.Number.Decimal

/-
  This file reads and writes 64-bit integers.

  Key definitions include:
    * `Whole.isInRange`
    * `Whole.parse?`
    * `Whole.text`
-/

namespace BlockScript
namespace Number
namespace Whole

------------------------------------------------------------
-- 64-Bit Integers
------------------------------------------------------------

/- Whether an integer has a place among those of 64 bits. -/
def isInRange (n : Int) : Bool :=
  Int64.minValue.toInt ≤ n && n ≤ Int64.maxValue.toInt

/-
  The integer that a text is: an optional sign and at least
  one digit, with a value in the range of 64 bits.
-/
def parse? (text : List Char) : Option Int64 :=
  match Decimal.parseSigned? text with
  | some n =>
      if isInRange n then
        some (Int64.ofInt n)
      else
        none
  | none => none

/- The digits of an integer, after a minus if negative. -/
def textOfInt (n : Int) : List Char :=
  if n < 0 then
    '-' :: Nat.toDigits 10 n.natAbs
  else
    Nat.toDigits 10 n.natAbs

/- A 64-bit integer as text. -/
def text (n : Int64) : List Char :=
  textOfInt n.toInt

end Whole
end Number
end BlockScript
