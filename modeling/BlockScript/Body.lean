import BlockScript.Cursor.Reaches
import BlockScript.Value

/-
  This file defines fields, what may be wrong with the body
  of a block, and grammars of bodies.

  Key definitions include:
    * `Field`
    * `Malformation`
    * `BodyError`
    * `Header`
    * `Grammar`
    * `FieldSpec`
    * `FieldTable`
    * `Body`
-/

namespace BlockScript

------------------------------------------------------------
-- Fields
------------------------------------------------------------

/- A key with its value, and the range that both take. -/
structure Field where
  key : String
  value : Value
  span : Span

namespace Fields

/- The first value under a key. -/
def get?
    (fields : List Field)
    (key : String) : Option Value :=
  (fields.find? (·.key == key)).map Field.value

/- Every value under a key, in order. -/
def getAll
    (fields : List Field)
    (key : String) : List Value :=
  (fields.filter (·.key == key)).map Field.value

end Fields

------------------------------------------------------------
-- Malformed Bodies
------------------------------------------------------------

/- What a value of some type should have been. -/
def ScalarType.expectation : ScalarType → String
  | int => "an integer"
  | float => "a number"
  | bool => "true or false"
  | string => "a string"
  | translation => "a string"
  | vec2 => "two numbers"
  | vec3 => "three numbers"
  | vec4 => "four numbers"

/-
  Why a body is not what its grammar asks for. `other` is for
  grammars with a wording of their own.
-/
inductive Malformation where
  | notFieldName (found : Token)
  | unknownField (name : String)
  | repeatedField (name : String)
  | noValue (key : String) (found : Token)
  | wrongValue
      (key : String)
      (expected : ScalarType)
      (found : Token)
  | noList (key : String) (found : Token)
  | wrongItem (key : String) (found : Token)
  | other (message : String)

/- The wording of a malformation. -/
def Malformation.message : Malformation → String
  | notFieldName found =>
      "expected a field name, found " ++ found.describe
  | unknownField name => "unknown field '" ++ name ++ "'"
  | repeatedField name =>
      "field '" ++ name ++ "' is given more than once"
  | noValue key found =>
      "expected a value for '" ++ key ++ "', found "
        ++ found.describe
  | wrongValue key expected found =>
      "'" ++ key ++ "' expects " ++ expected.expectation
        ++ ", found " ++ found.describe
  | noList key found =>
      "'" ++ key ++ "' expects a '\x7b ... \x7d' list, found "
        ++ found.describe
  | wrongItem key found =>
      "unexpected " ++ found.describe ++ " in '" ++ key
        ++ "' list"
  | other message => message

/-
  Why a body could not be read: it is malformed, at a token
  if one is to blame, or input ended inside it.
-/
inductive BodyError where
  | malformed
      (cause : Malformation)
      (blamed : Option Token)
  | unexpectedEof

/- A malformation blamed on a token. -/
def BodyError.blame
    (t : Token)
    (cause : Malformation) : BodyError :=
  malformed cause (some t)

------------------------------------------------------------
-- Grammars of Bodies
------------------------------------------------------------

/-
  What reading at a cursor gives: a result or the reason why
  there is none, and the cursor afterwards.
-/
abbrev Reading (α : Type) :=
  Except BodyError α × Cursor

/- The part of a block before its body. -/
structure Header where
  keyword : String
  name : Option String
  span : Span

/-
  A way to read a body that starts after its opening brace.
  It is handed the header of its block, and may leave another
  in its place. It may do as it likes, but it moves the
  cursor only by the cursor's own operations.
-/
structure Grammar where
  read : Header → Cursor → Reading (List Field)
  header : Header → Cursor → Header
  reaches :
    ∀ (h : Header) (c : Cursor), c.Reaches (read h c).2

/- A field that a body may have. -/
structure FieldSpec where
  name : String
  type : ValueType
  repeatable : Bool := false

/- The fields that a body may have. -/
structure FieldTable where
  specs : List FieldSpec

/- The first specification with a name. -/
def FieldTable.spec?
    (table : FieldTable)
    (name : String) : Option FieldSpec :=
  table.specs.find? (·.name == name)

/-
  How a body is read: anything up to its closing brace,
  entries whose keys come from a table, or a grammar of its
  own.
-/
inductive Body where
  | unstructured
  | table (table : FieldTable)
  | custom (grammar : Grammar)

end BlockScript
