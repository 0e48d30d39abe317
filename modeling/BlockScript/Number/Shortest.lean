import BlockScript.Number.Binary

/-
  This file finds the shortest decimal numeral that rounds to
  a given binary number.

  The exact value of a binary number is a decimal numeral.
  Cut after one, two, … digits it lies between two numerals
  of that many digits. The first pair that holds a numeral
  rounding back to the number gives the answer.

  Key definitions include:
    * `Format.exact`
    * `Format.roundsTo`
    * `Format.cut?`
    * `Format.shortest`
-/

namespace BlockScript
namespace Number
namespace Format

------------------------------------------------------------
-- Shortest Numerals
------------------------------------------------------------

/- The coefficient of the exact value of magnitude `k`. -/
def exactCoefficient (f : Format) (k : Nat) : Nat :=
  f.units k * Nat.pow 5 f.unitScale

/- The exact value of magnitude `k`. -/
def exact (f : Format) (k : Nat) : Nat × Int :=
  (f.exactCoefficient k, -(f.unitScale : Int))

/- Whether a numeral rounds to magnitude `k`. -/
def roundsTo
    (f : Format)
    (k : Nat)
    (numeral : Nat × Int) : Bool :=
  let d : Decimal := ⟨false, numeral.1, numeral.2⟩
  match (Binary.ofDecimal d : Binary f) with
  | .finite _ magnitude => magnitude.val == k
  | _ => false

/-
  The numeral of at most `length - dropped` digits that
  rounds to magnitude `k` and is nearest to its exact value,
  if any such numeral rounds to it.
-/
def cut?
    (f : Format)
    (tie : Tie)
    (k dropped : Nat) : Option (Nat × Int) :=
  let divisor := Nat.pow 10 dropped
  let floor := f.exactCoefficient k / divisor
  let remainder := f.exactCoefficient k % divisor
  let power : Int := dropped - f.unitScale
  let lower := Decimal.stripZeros floor power
  let upper := Decimal.stripZeros (floor + 1) power
  let ordered :=
    if roundsUp tie floor remainder divisor then
      [upper, lower]
    else
      [lower, upper]
  ordered.find? (f.roundsTo k)

/-
  The shortest numeral that rounds to magnitude `k`, and of
  those the nearest to its exact value.
-/
def shortest
    (f : Format)
    (tie : Tie)
    (k : Nat) : Nat × Int :=
  let length :=
    (Nat.toDigits 10 (f.exactCoefficient k)).length
  ((List.range length).findSome? fun kept =>
    f.cut? tie k (length - 1 - kept)).getD (f.exact k)

end Format
end Number
end BlockScript
