import BlockScript.Number.Layout
import BlockScript.Number.Whole
import BlockScript.Text.Literal
import BlockScript.Value
import BlockScript.Word

/-
  This file writes values: as they stand in a script, and as
  summaries that name the type.

  Key definitions include:
    * `Value.written`
    * `Value.text`
    * `Value.summary`
-/

namespace BlockScript
namespace Value

open Number (Single)

------------------------------------------------------------
-- Values in a Script
------------------------------------------------------------

/- Texts with a blank between each two. -/
def spaced (texts : List (List Char)) : List Char :=
  [' '].intercalate texts

/- A truth value as a word. -/
def boolWord (b : Bool) : List Char :=
  if b then "true".toList else "false".toList

/- Several numbers with blanks between them. -/
def numbers (xs : List Single) : List Char :=
  spaced (xs.map fun x => x.text)

/- The items of a list in braces. -/
def listed (items : List String) : List Char :=
  '{' :: (items.flatMap fun item =>
      ' ' :: Word.written item.toList)
    ++ [' ', '}']

mutual

/- A value as it stands in a script. -/
def written : Value → List Char
  | int n => Number.Whole.text n
  | float x => x.text
  | bool b => boolWord b
  | string s => Word.written s.toList
  | translation s => Word.quoted ('_' :: s.toList)
  | vec2 x y => '"' :: numbers [x, y] ++ ['"']
  | vec3 x y z => '"' :: numbers [x, y, z] ++ ['"']
  | vec4 x y z w => '"' :: numbers [x, y, z, w] ++ ['"']
  | list items => listed items
  | record parts => spaced (writtenParts parts)

/- The parts of a record as they stand in a script. -/
def writtenParts : List Value → List (List Char)
  | [] => []
  | v :: vs => v.written :: writtenParts vs

end

/- A value as it stands in a script. -/
def text (v : Value) : String :=
  String.ofList v.written

------------------------------------------------------------
-- Summaries
------------------------------------------------------------

/- A text as a quoted literal. -/
def literal (text : String) : String :=
  String.ofList (Text.literal text.toList)

/- Several numbers as a string. -/
def numbersText (xs : List Single) : String :=
  String.ofList (numbers xs)

mutual

/- A value on one line, after the name of its type. -/
def summary : Value → String
  | int n => "int " ++ String.ofList (Number.Whole.text n)
  | float x => "float " ++ String.ofList x.text
  | bool b => "bool " ++ String.ofList (boolWord b)
  | string s => "string " ++ literal s
  | translation s => "translation " ++ literal s
  | vec2 x y => "vec2 " ++ numbersText [x, y]
  | vec3 x y z => "vec3 " ++ numbersText [x, y, z]
  | vec4 x y z w => "vec4 " ++ numbersText [x, y, z, w]
  | list items => "list [" ++ ", ".intercalate items ++ "]"
  | record parts =>
      "record (" ++ ", ".intercalate (summaries parts) ++ ")"

/- The parts of a record on one line each. -/
def summaries : List Value → List String
  | [] => []
  | v :: vs => v.summary :: summaries vs

end

end Value
end BlockScript
