/-
  This file defines the division of natural numbers rounded
  to the nearest whole number.

  Key definitions include:
    * `Tie`
    * `roundDiv`
-/

namespace BlockScript
namespace Number

------------------------------------------------------------
-- Rounded Division
------------------------------------------------------------

/- Where a quotient halfway between two numbers goes. -/
inductive Tie where
  | up
  | even
deriving DecidableEq

/-
  Whether a quotient with the given floor and remainder is
  rounded up.
-/
def roundsUp
    (tie : Tie)
    (floor remainder divisor : Nat) : Bool :=
  match compare (2 * remainder) divisor with
  | .lt => false
  | .gt => true
  | .eq =>
      match tie with
      | .up => true
      | .even => floor % 2 == 1

/- The whole number nearest to a quotient. -/
def roundDiv
    (tie : Tie)
    (dividend divisor : Nat) : Nat :=
  let floor := dividend / divisor
  if roundsUp tie floor (dividend % divisor) divisor then
    floor + 1
  else
    floor

end Number
end BlockScript
