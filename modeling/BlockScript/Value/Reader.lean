import BlockScript.Body
import BlockScript.Number.Whole

/-
  This file reads typed values at a cursor.

  Key definitions include:
    * `ScalarType.convert?`
    * `ValueType.read`

  Key theorems include:
    * `ValueType.reaches_read`
-/

namespace BlockScript

open Number (Single)

------------------------------------------------------------
-- Conversion of Text
------------------------------------------------------------

namespace ScalarType

/- A finite number. -/
def number? (text : List Char) : Option Single :=
  Number.Binary.parseFinite? text

/- The finite numbers that the words of a text are. -/
def numbers? (text : String) : Option (List Single) :=
  (Text.words text.toList).mapM number?

/- The truth value that a word stands for. -/
def truth? (text : String) : Option Bool :=
  if text = "true" ∨ text = "1" then
    some true
  else if text = "false" ∨ text = "0" then
    some false
  else
    none

/- A string, which the mark `_` in front has translated. -/
def marked (text : String) : Value :=
  match text.toList with
  | '_' :: rest => .translation (String.ofList rest)
  | _ => .string text

/- The value of a type that the text of a token stands for. -/
def convert?
    (type : ScalarType)
    (text : String) : Option Value :=
  match type with
  | int => (Number.Whole.parse? text.toList).map .int
  | float => (number? text.toList).map .float
  | bool => (truth? text).map .bool
  | string => some (.string text)
  | translation => some (marked text)
  | vec2 =>
      match numbers? text with
      | some [x, y] => some (.vec2 x y)
      | _ => none
  | vec3 =>
      match numbers? text with
      | some [x, y, z] => some (.vec3 x y z)
      | _ => none
  | vec4 =>
      match numbers? text with
      | some [x, y, z, w] => some (.vec4 x y z w)
      | _ => none

/-
  Read one token as a value of a type. A token that cannot be
  a value is left in place.
-/
def read
    (type : ScalarType)
    (key : String)
    (c : Cursor) : Reading Value :=
  match c.peek with
  | (none, c) => (.error .unexpectedEof, c)
  | (some t, c) =>
      if t.kind.isScalar then
        match type.convert? t.text with
        | some v => (.ok v, c.next.2)
        | none =>
            (.error (.blame t (.wrongValue key type t)),
              c.next.2)
      else
        (.error (.blame t (.noValue key t)), c)

theorem reaches_read
    (type : ScalarType)
    (key : String)
    (c : Cursor) :
    c.Reaches (type.read key c).2 := by
  unfold read
  split
  · rename_i c' h
    exact .of_peek h
  · rename_i t c' h
    have hPeek : c.Reaches c' := .of_peek h
    split
    · split
      · exact hPeek.next
      · exact hPeek.next
    · exact hPeek

end ScalarType

------------------------------------------------------------
-- Lists
------------------------------------------------------------

namespace ValueType

/-
  Read the items of a list up to its closing brace, after
  those in `items`, last first.
-/
def readItems
    (key : String)
    (items : List String)
    (c : Cursor) : Reading Value :=
  match _ : c.next with
  | (none, c') => (.error .unexpectedEof, c')
  | (some t, c') =>
      if t.kind = .rBrace then
        (.ok (.list items.reverse), c')
      else if t.kind.isScalar then
        readItems key (t.text :: items) c'
      else
        (.error (.blame t (.wrongItem key t)), c')
termination_by c.size
decreasing_by
  rename_i h _ _
  have hLt := Cursor.size_next_lt (c := c) (by simp [h])
  simpa [h] using hLt

/- Read a list with its braces. -/
def readList
    (key : String)
    (c : Cursor) : Reading Value :=
  match c.peek with
  | (none, c) => (.error .unexpectedEof, c)
  | (some t, c) =>
      if t.kind = .lBrace then
        readItems key [] c.next.2
      else
        (.error (.blame t (.noList key t)), c)

theorem reaches_readItems
    (key : String)
    (items : List String)
    (c : Cursor) :
    c.Reaches (readItems key items c).2 := by
  fun_induction readItems key items c with
  | case1 items c c' h => exact .of_next h
  | case2 items c t c' h hKind => exact .of_next h
  | case3 items c t c' h hKind hScalar ih =>
      exact (Cursor.Reaches.of_next h).trans ih
  | case4 items c t c' h hKind hScalar => exact .of_next h

theorem reaches_readList
    (key : String)
    (c : Cursor) :
    c.Reaches (readList key c).2 := by
  unfold readList
  split
  · rename_i c' h
    exact .of_peek h
  · rename_i t c' h
    have hPeek : c.Reaches c' := .of_peek h
    split
    · exact hPeek.next.trans (reaches_readItems key [] _)
    · exact hPeek

------------------------------------------------------------
-- Values
------------------------------------------------------------

mutual

/- Read one value of a type for the field with a key. -/
def read
    (type : ValueType)
    (key : String)
    (c : Cursor) : Reading Value :=
  match type with
  | scalar type => type.read key c
  | list => readList key c
  | record parts =>
      match readParts parts key c with
      | (.ok vs, c) => (.ok (.record vs), c)
      | (.error e, c) => (.error e, c)

/- Read the parts of a record in a row. -/
def readParts
    (parts : List ValueType)
    (key : String)
    (c : Cursor) : Reading (List Value) :=
  match parts with
  | [] => (.ok [], c)
  | type :: types =>
      match type.read key c with
      | (.error e, c) => (.error e, c)
      | (.ok v, c) =>
          match readParts types key c with
          | (.error e, c) => (.error e, c)
          | (.ok vs, c) => (.ok (v :: vs), c)

end

mutual

theorem reaches_read
    (type : ValueType)
    (key : String)
    (c : Cursor) :
    c.Reaches (type.read key c).2 := by
  cases type with
  | scalar type =>
      simp only [read]
      exact type.reaches_read key c
  | list =>
      simp only [read]
      exact reaches_readList key c
  | record parts =>
      have hParts := reaches_readParts parts key c
      simp only [read]
      split <;> rename_i h <;> rwa [h] at hParts

theorem reaches_readParts
    (parts : List ValueType)
    (key : String)
    (c : Cursor) :
    c.Reaches (readParts parts key c).2 := by
  cases parts with
  | nil =>
      simp only [readParts]
      exact Cursor.Reaches.refl
  | cons type types =>
      have hType := reaches_read type key c
      simp only [readParts]
      split
      · rename_i e c' h
        rwa [h] at hType
      · rename_i v c' h
        rw [h] at hType
        have hTypes := reaches_readParts types key c'
        split <;> rename_i h' <;> rw [h'] at hTypes <;>
          exact hType.trans hTypes

end

end ValueType
end BlockScript
