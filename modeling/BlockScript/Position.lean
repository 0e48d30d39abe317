/-
  This file defines places in a text: byte ranges, line and
  column, and the position that moves along while characters
  are read.

  Key definitions include:
    * `Span`
    * `Location`
    * `Location.advance`
    * `Position`
    * `Position.step`
    * `Position.after`
-/

namespace BlockScript

------------------------------------------------------------
-- Spans
------------------------------------------------------------

/- A range of bytes, from `start` up to but not at `stop`. -/
structure Span where
  start : Nat
  stop : Nat
deriving DecidableEq, Repr

namespace Span

/- The number of bytes in a range; none if it is backward. -/
def length (s : Span) : Nat :=
  s.stop - s.start

/- Whether a range has no bytes. -/
def isEmpty (s : Span) : Bool :=
  s.length == 0

end Span

------------------------------------------------------------
-- Locations
------------------------------------------------------------

/-
  A line and a column, both counted from one. The column
  counts characters.
-/
structure Location where
  line : Nat
  column : Nat
deriving DecidableEq, Repr

namespace Location

/- The start of a text. -/
def first : Location :=
  { line := 1, column := 1 }

/- The location after a character read at this one. -/
def step
    (l : Location)
    (c : Char) : Location :=
  if c = '\n' then
    { line := l.line + 1, column := 1 }
  else
    { line := l.line, column := l.column + 1 }

/-
  The first number that is no column: they have 64 bits. No
  text that is held in memory has as many bytes.
-/
def columnLimit : Nat :=
  18446744073709551616

/- Whether there is a column some columns further on. -/
def fits
    (l : Location)
    (columns : Nat) : Bool :=
  l.column + columns < columnLimit

/-
  The location some columns further on. A column that would
  not fit begins at zero again.
-/
def advance
    (l : Location)
    (columns : Nat) : Location :=
  { l with column := (l.column + columns) % columnLimit }

theorem advance_of_fits
    {l : Location}
    {columns : Nat}
    (hFits : l.fits columns = true) :
    l.advance columns
      = { l with column := l.column + columns } := by
  rw [fits, decide_eq_true_eq] at hFits
  rw [advance, Nat.mod_eq_of_lt hFits]

/- A location in messages. -/
def text (l : Location) : String :=
  s!"{l.line}:{l.column}"

end Location

------------------------------------------------------------
-- Positions
------------------------------------------------------------

/- A byte offset together with its location. -/
structure Position where
  offset : Nat
  location : Location
deriving DecidableEq, Repr

namespace Position

/- The start of a text. -/
def first : Position :=
  { offset := 0, location := Location.first }

/- The position after a character read at this one. -/
def step
    (p : Position)
    (c : Char) : Position :=
  { offset := p.offset + c.utf8Size,
    location := p.location.step c }

/- The position after some characters read from this one. -/
def after
    (p : Position)
    (text : List Char) : Position :=
  text.foldl step p

/- The range from this position to a later one. -/
def spanTo
    (p q : Position) : Span :=
  { start := p.offset, stop := q.offset }

@[simp]
theorem after_nil
    (p : Position) :
    p.after [] = p :=
  rfl

@[simp]
theorem after_cons
    (p : Position)
    (c : Char)
    (text : List Char) :
    p.after (c :: text) = (p.step c).after text :=
  rfl

@[simp]
theorem after_append
    (p : Position)
    (front back : List Char) :
    p.after (front ++ back) = (p.after front).after back :=
  List.foldl_append

end Position
end BlockScript
