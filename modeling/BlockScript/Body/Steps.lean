import BlockScript.Body

/-
  This file defines bodies that take a fixed number of tokens
  and then stop, wherever that leaves them.

  Key definitions include:
    * `Steps`
    * `Steps.grammar`
-/

namespace BlockScript

------------------------------------------------------------
-- Steps
------------------------------------------------------------

/- What a body that takes a number of tokens ends with. -/
inductive Steps.Ending where
  | accept
  | eof
  | malformed (message : String)
  | malformedAtLast (message : String)

/-
  A body that takes `count` tokens, or fewer if input ends.
  With `records` each word becomes a field that describes it.
-/
structure Steps where
  count : Nat
  records : Bool
  ending : Steps.Ending

namespace Steps

/- The field that a token becomes. -/
def record
    (steps : Steps)
    (t : Token) : List Field :=
  if steps.records && t.isWord then
    [{ key := t.text,
       value := .string t.describe,
       span := t.span }]
  else
    []

/- The result after the last token taken, if any was. -/
def conclude
    (steps : Steps)
    (fields : List Field)
    (last : Option Token) : Except BodyError (List Field) :=
  match steps.ending with
  | .accept => .ok fields
  | .eof => .error .unexpectedEof
  | .malformed message =>
      .error (.malformed (.other message) none)
  | .malformedAtLast message =>
      .error (.malformed (.other message) last)

/-
  Take some more tokens, after those that gave `fields`, last
  first.
-/
def read
    (steps : Steps)
    (fields : List Field)
    (last : Option Token)
    (c : Cursor) : Nat → Reading (List Field)
  | 0 => (steps.conclude fields.reverse last, c)
  | n + 1 =>
      match c.next with
      | (none, c) => (steps.conclude fields.reverse last, c)
      | (some t, c) =>
          steps.read (steps.record t ++ fields) (some t) c n

/- Steps only take tokens. -/
theorem reaches_read
    (steps : Steps)
    (fields : List Field)
    (last : Option Token)
    (c : Cursor)
    (n : Nat) :
    c.Reaches (steps.read fields last c n).2 := by
  induction n generalizing fields last c with
  | zero => exact Cursor.Reaches.refl
  | succ n ih =>
      unfold read
      split
      · rename_i c' h
        exact .of_next h
      · rename_i t c' h
        exact (Cursor.Reaches.of_next h).trans (ih _ _ _)

/- The grammar of such a body, which leaves the header. -/
def grammar (steps : Steps) : Grammar :=
  { read := fun _ c => steps.read [] none c steps.count,
    header := fun h _ => h,
    reaches := fun _ c =>
      steps.reaches_read [] none c steps.count }

end Steps
end BlockScript
