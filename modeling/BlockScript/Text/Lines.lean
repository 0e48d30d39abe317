/-
  This file defines the lines of a text.

  Key definitions include:
    * `dropCarriageReturn`
    * `lines`
-/

namespace BlockScript
namespace Text

------------------------------------------------------------
-- Lines
------------------------------------------------------------

/- A line without the carriage return that ends it. -/
def dropCarriageReturn (line : List Char) : List Char :=
  if line.getLast? = some '\r' then line.dropLast else line

/-
  A line feed ends a line, together with one carriage return
  before it. A final line feed starts no new line, and a last
  line without one keeps its carriage return.
-/
def lines (text : List Char) : List (List Char) :=
  match _ : text.dropWhile (· != '\n') with
  | [] => if text.isEmpty then [] else [text]
  | _ :: rest =>
      dropCarriageReturn (text.takeWhile (· != '\n'))
        :: lines rest
termination_by text.length
decreasing_by
  rename_i h
  have hText :
      (text.dropWhile (· != '\n')).length ≤ text.length :=
    (List.dropWhile_suffix _).length_le
  rw [h] at hText
  simp only [List.length_cons] at hText
  omega

end Text
end BlockScript
