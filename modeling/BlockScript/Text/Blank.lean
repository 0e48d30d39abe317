/-
  This file defines the white-space characters of a script
  and the splitting of text at them.

  Key definitions include:
    * `isBlank`
    * `dropIndent`
    * `words`
-/

namespace BlockScript
namespace Text

------------------------------------------------------------
-- Blank Characters
------------------------------------------------------------

/-
  The 25 code points with the property White_Space.
-/
def isBlank (c : Char) : Bool :=
  let n := c.toNat
  (9 ≤ n && n ≤ 13)
    || n == 0x20
    || n == 0x85
    || n == 0xA0
    || n == 0x1680
    || (0x2000 ≤ n && n ≤ 0x200A)
    || n == 0x2028
    || n == 0x2029
    || n == 0x202F
    || n == 0x205F
    || n == 0x3000

/- Every ASCII white-space character is blank. -/
theorem isBlank_of_isWhitespace
    (c : Char)
    (h : c.isWhitespace = true) :
    isBlank c = true := by
  simp only [
    Char.isWhitespace,
    Bool.or_eq_true,
    decide_eq_true_eq
  ] at h
  rcases h with ((rfl | rfl) | rfl) | rfl <;> decide

/- The text after the spaces and tabs in front of it. -/
def dropIndent (text : List Char) : List Char :=
  text.dropWhile fun c => c == ' ' || c == '\t'

------------------------------------------------------------
-- Words
------------------------------------------------------------

/-
  The maximal runs of characters that are not blank, in
  order.
-/
def words (text : List Char) : List (List Char) :=
  match _ : text.dropWhile isBlank with
  | [] => []
  | c :: rest =>
      (c :: rest.takeWhile (!isBlank ·))
        :: words (rest.dropWhile (!isBlank ·))
termination_by text.length
decreasing_by
  rename_i h
  have hText : (text.dropWhile isBlank).length ≤ text.length :=
    (List.dropWhile_suffix isBlank).length_le
  have hRest :
      (rest.dropWhile (!isBlank ·)).length ≤ rest.length :=
    (List.dropWhile_suffix _).length_le
  rw [h] at hText
  simp only [List.length_cons] at hText
  omega

end Text
end BlockScript
