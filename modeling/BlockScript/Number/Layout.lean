import BlockScript.Number.Shortest

/-
  This file writes binary numbers as text.

  Key definitions include:
    * `Layout`
    * `Layout.plain`
    * `Binary.text`
-/

namespace BlockScript
namespace Number

------------------------------------------------------------
-- Layouts
------------------------------------------------------------

/-
  How the digits of a number are set out: where a tie between
  two shortest numerals goes, for which powers of ten of the
  first digit no exponent is written, and whether a whole
  number shows a zero after a point.
-/
structure Layout where
  tie : Tie
  isPositional : Int → Bool
  showsPoint : Bool

/-
  Plain numbers never have an exponent, and whole numbers
  have no point.
-/
def Layout.plain : Layout :=
  { tie := .up,
    isPositional := fun _ => true,
    showsPoint := false }

namespace Layout

/- Digits set out around a point, with no exponent. -/
def positional
    (layout : Layout)
    (digits : List Char) : Int → List Char
  | .ofNat zeros =>
      digits ++ List.replicate zeros '0'
        ++ (if layout.showsPoint then ['.', '0'] else [])
  | .negSucc n =>
      let places := n + 1
      if places < digits.length then
        let whole := digits.length - places
        digits.take whole ++ '.' :: digits.drop whole
      else
        '0' :: '.' ::
          (List.replicate (places - digits.length) '0'
            ++ digits)

/- One digit before the point and a signed exponent. -/
def scientific
    (digits : List Char)
    (power : Int) : List Char :=
  digits.take 1
    ++ (match digits.drop 1 with
        | [] => []
        | fraction => '.' :: fraction)
    ++ 'e' :: (if power < 0 then '-' else '+')
    :: Nat.toDigits 10 power.natAbs

/- A coefficient and a power of ten as text. -/
def decimal
    (layout : Layout)
    (numeral : Nat × Int) : List Char :=
  let digits := Nat.toDigits 10 numeral.1
  let power := numeral.2 + digits.length - 1
  if numeral.1 = 0 then
    layout.positional digits 0
  else if layout.isPositional power then
    layout.positional digits numeral.2
  else
    scientific digits power

/- A magnitude of some format as text. -/
def magnitude
    (layout : Layout)
    (f : Format)
    (k : Nat) : List Char :=
  if k = 0 then
    layout.decimal (0, 0)
  else
    layout.decimal (f.shortest layout.tie k)

end Layout

------------------------------------------------------------
-- Text of Binary Numbers
------------------------------------------------------------

namespace Binary

variable {f : Format}

/- A minus sign for a negative number. -/
def signText (negative : Bool) : List Char :=
  if negative then ['-'] else []

/- A finite number in some layout. -/
def finiteText
    (layout : Layout)
    (negative : Bool)
    (k : Nat) : List Char :=
  signText negative ++ layout.magnitude f k

/- A number as plain text. -/
def text : Binary f → List Char
  | nan => ['N', 'a', 'N']
  | infinite negative => signText negative ++ ['i', 'n', 'f']
  | finite negative k =>
      finiteText (f := f) Layout.plain negative k

end Binary
end Number
end BlockScript
