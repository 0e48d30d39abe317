import BlockScript.Number.Binary

/-
  This file defines the typed values of fields.

  Key definitions include:
    * `ScalarType`
    * `ValueType`
    * `Value`
    * `Value.toInt?`
    * `Value.toSingle?`
    * `Value.toBool?`
    * `Value.toText?`
    * `Value.toItems?`
-/

namespace BlockScript

open Number (Single)

------------------------------------------------------------
-- Types
------------------------------------------------------------

/-
  Types of values that are one token. A translation is a
  string that may carry the mark `_` in front. A vector is
  several numbers in one string.
-/
inductive ScalarType where
  | int
  | float
  | bool
  | string
  | translation
  | vec2
  | vec3
  | vec4
deriving DecidableEq, Repr

/-
  Types of values. A list is any number of tokens in braces,
  and a record is several values in a row.
-/
inductive ValueType where
  | scalar (type : ScalarType)
  | list
  | record (parts : List ValueType)
deriving Repr

------------------------------------------------------------
-- Values
------------------------------------------------------------

/-
  A value of some type. The text of a translation is kept
  without its mark.
-/
inductive Value where
  | int (n : Int64)
  | float (x : Single)
  | bool (b : Bool)
  | string (text : String)
  | translation (text : String)
  | vec2 (x y : Single)
  | vec3 (x y z : Single)
  | vec4 (x y z w : Single)
  | list (items : List String)
  | record (parts : List Value)

namespace Value

/- The integer that a value is. -/
def toInt? : Value → Option Int64
  | int n => some n
  | _ => none

/- The number that a value is; an integer is rounded. -/
def toSingle? : Value → Option Single
  | float x => some x
  | int n => some (Number.Binary.ofInt n.toInt)
  | _ => none

/- The truth value that a value is. -/
def toBool? : Value → Option Bool
  | bool b => some b
  | _ => none

/- The text of a string, translated or not. -/
def toText? : Value → Option String
  | string s => some s
  | translation s => some s
  | _ => none

/- The items of a list. -/
def toItems? : Value → Option (List String)
  | list items => some items
  | _ => none

end Value
end BlockScript
