import BlockScript.Settings.Toml.Text
import BlockScript.Settings.Tree

/-
  This file reads the numbers of a settings file: integers in
  four bases, decimal numbers, and the words for numbers that
  are not finite. Single underscores may stand between
  digits.

  Key definitions include:
    * `Toml.digitRun`
    * `Toml.inBase?`
    * `Toml.decimal?`
    * `Toml.numeral?`
-/

namespace BlockScript
namespace Toml

------------------------------------------------------------
-- Runs of Digits
------------------------------------------------------------

/-
  The longest run of digits with at most one underscore
  between two of them, and what follows it. The underscores
  are left out.
-/
def digitRun
    (isDigit : Char → Bool) :
    List Char → List Char × List Char
  | c :: '_' :: d :: rest =>
      if !isDigit c then
        ([], c :: '_' :: d :: rest)
      else if isDigit d then
        let (digits, rest) := digitRun isDigit (d :: rest)
        (c :: digits, rest)
      else
        ([c], '_' :: d :: rest)
  | c :: rest =>
      if isDigit c then
        let (digits, rest) := digitRun isDigit rest
        (c :: digits, rest)
      else
        ([], c :: rest)
  | [] => ([], [])

/- A run of at least one digit. -/
def digits?
    (isDigit : Char → Bool)
    (text : List Char) : Option (List Char × List Char) :=
  let (digits, rest) := digitRun isDigit text
  if digits.isEmpty then none else some (digits, rest)

------------------------------------------------------------
-- Integers
------------------------------------------------------------

/- An integer that has a place among those of 64 bits. -/
def integer?
    (n : Int)
    (rest : List Char) : Option (Setting × List Char) :=
  if Number.Whole.isInRange n then
    some (.int n, rest)
  else
    none

/- An integer in a base, after the mark of the base. -/
def inBase?
    (base : Nat)
    (text : List Char) : Option (Setting × List Char) := do
  let isDigit := fun c => (digitValue? c).any (· < base)
  let (digits, rest) ← digits? isDigit text
  let n := digits.foldl
    (fun n c => base * n + (digitValue? c).getD 0) 0
  integer? n rest

------------------------------------------------------------
-- Decimal Numbers
------------------------------------------------------------

/- The digits before a point: no zero stands in front. -/
def wholePart? :
    List Char → Option (List Char × List Char)
  | '0' :: rest => some (['0'], rest)
  | text => digits? Char.isDigit text

/- The digits after a point, if there is one. -/
def fractionPart? :
    List Char → Option (List Char × List Char)
  | '.' :: rest => digits? Char.isDigit rest
  | rest => some ([], rest)

/- The power of ten after its mark, if there is one. -/
def exponentPart? :
    List Char → Option (Option Int × List Char)
  | [] => some (none, [])
  | mark :: rest =>
      if mark == 'e' || mark == 'E' then do
        let (negative, unsigned) := Number.splitSign rest
        let (digits, rest) ← digits? Char.isDigit unsigned
        let n : Int := Number.ofDigits digits
        return (some (if negative then -n else n), rest)
      else
        some (none, mark :: rest)

/-
  A number by its parts, which is an integer if it has digits
  before the point only. One too large to be finite is
  refused, unless it is negative.
-/
def ofParts?
    (negative : Bool)
    (whole fraction : List Char)
    (power : Option Int)
    (rest : List Char) : Option (Setting × List Char) :=
  let n := Number.ofDigits (whole ++ fraction)
  if fraction.isEmpty && power.isNone then
    integer? (if negative then -n else n) rest
  else
    let x : Number.Double := Number.Binary.ofDecimal
      { negative,
        coefficient := n,
        exponent := power.getD 0 - fraction.length }
    if x = .infinite false then none else some (.float x, rest)

/- A number in base ten, after its sign. -/
def decimal?
    (negative : Bool)
    (text : List Char) : Option (Setting × List Char) := do
  let (whole, rest) ← wholePart? text
  let (fraction, rest) ← fractionPart? rest
  let (power, rest) ← exponentPart? rest
  ofParts? negative whole fraction power rest

------------------------------------------------------------
-- Numbers
------------------------------------------------------------

/- A number, and what follows it. -/
def numeral?
    (text : List Char) : Option (Setting × List Char) :=
  match text with
  | '0' :: 'x' :: rest => inBase? 16 rest
  | '0' :: 'o' :: rest => inBase? 8 rest
  | '0' :: 'b' :: rest => inBase? 2 rest
  | _ =>
      let (negative, unsigned) := Number.splitSign text
      match unsigned with
      | 'i' :: 'n' :: 'f' :: rest =>
          some (.float (.infinite negative), rest)
      | 'n' :: 'a' :: 'n' :: rest => some (.float .nan, rest)
      | _ => decimal? negative unsigned

end Toml
end BlockScript
