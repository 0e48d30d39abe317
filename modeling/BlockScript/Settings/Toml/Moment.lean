import BlockScript.Number.Decimal

/-
  This file reads and writes dates, times of day, and both
  together with a distance from universal time.

  Key definitions include:
    * `Date`
    * `TimeOfDay`
    * `Moment`
    * `Moment.read?`
    * `Moment.text`
-/

namespace BlockScript
namespace Toml

------------------------------------------------------------
-- Fields
------------------------------------------------------------

/- A number of so many digits that is in a range. -/
def field?
    (count low high : Nat)
    (text : List Char) : Option (Nat × List Char) :=
  let digits := text.take count
  let n := Number.ofDigits digits
  if digits.length == count && digits.all Char.isDigit
      && low ≤ n && n ≤ high then
    some (n, text.drop count)
  else
    none

/- What follows a character that has to stand. -/
def after?
    (mark : Char) : List Char → Option (List Char)
  | c :: rest => if c == mark then some rest else none
  | [] => none

/- A number with zeros in front up to a length. -/
def padded
    (length n : Nat) : List Char :=
  let digits := Nat.toDigits 10 n
  List.replicate (length - digits.length) '0' ++ digits

------------------------------------------------------------
-- Dates
------------------------------------------------------------

/- A day of the calendar. -/
structure Date where
  year : Nat
  month : Nat
  day : Nat
deriving DecidableEq, Repr

namespace Date

/- Whether a year has a leap day. -/
def isLeapYear (year : Nat) : Bool :=
  year % 4 == 0 && (year % 100 != 0 || year % 400 == 0)

/- How many days a month has. -/
def daysIn
    (year month : Nat) : Nat :=
  if month == 2 then
    if isLeapYear year then 29 else 28
  else if [4, 6, 9, 11].contains month then
    30
  else
    31

/- A date such as `1979-05-27`. -/
def read?
    (text : List Char) : Option (Date × List Char) := do
  let (year, rest) ← field? 4 0 9999 text
  let (month, rest) ← field? 2 1 12 (← after? '-' rest)
  let (day, rest) ←
    field? 2 1 (daysIn year month) (← after? '-' rest)
  return ({ year, month, day }, rest)

/- A date as text. -/
def text (d : Date) : List Char :=
  padded 4 d.year ++ '-' :: padded 2 d.month
    ++ '-' :: padded 2 d.day

end Date

------------------------------------------------------------
-- Times of Day
------------------------------------------------------------

/- A time of day; a minute may have a leap second. -/
structure TimeOfDay where
  hour : Nat
  minute : Nat
  second : Nat
  nanosecond : Nat
deriving DecidableEq, Repr

namespace TimeOfDay

/-
  The nanoseconds of a fraction of a second. Digits after the
  ninth are dropped.
-/
def fraction : List Char → Nat × List Char
  | '.' :: rest =>
      let digits := rest.takeWhile Char.isDigit
      if digits.isEmpty then
        (0, '.' :: rest)
      else
        (Number.ofDigits
            ((digits ++ List.replicate 9 '0').take 9),
          rest.dropWhile Char.isDigit)
  | rest => (0, rest)

/- A time such as `07:32:00.5`. -/
def read?
    (text : List Char) : Option (TimeOfDay × List Char) := do
  let (hour, rest) ← field? 2 0 23 text
  let (minute, rest) ← field? 2 0 59 (← after? ':' rest)
  let (second, rest) ← field? 2 0 60 (← after? ':' rest)
  let (nanosecond, rest) := fraction rest
  return ({ hour, minute, second, nanosecond }, rest)

/- A time as text, without zeros at the end of a fraction. -/
def text (t : TimeOfDay) : List Char :=
  let clock :=
    padded 2 t.hour ++ ':' :: padded 2 t.minute
      ++ ':' :: padded 2 t.second
  let digits := (padded 9 t.nanosecond).reverse
  if t.nanosecond == 0 then
    clock
  else
    clock ++ '.' :: (digits.dropWhile (· == '0')).reverse

end TimeOfDay

------------------------------------------------------------
-- Distances From Universal Time
------------------------------------------------------------

/- Universal time by name, or a distance from it. -/
inductive ZoneOffset where
  | utc
  | minutes (n : Int)
deriving DecidableEq, Repr

namespace ZoneOffset

/- A distance such as `-07:00`, after its sign. -/
def readMinutes?
    (text : List Char) : Option (Nat × List Char) := do
  let (hour, rest) ← field? 2 0 23 text
  let (minute, rest) ← field? 2 0 59 (← after? ':' rest)
  return (60 * hour + minute, rest)

/- A zone offset. -/
def read? : List Char → Option (ZoneOffset × List Char)
  | 'Z' :: rest => some (utc, rest)
  | 'z' :: rest => some (utc, rest)
  | '+' :: rest => do
      let (n, rest) ← readMinutes? rest
      return (minutes n, rest)
  | '-' :: rest => do
      let (n, rest) ← readMinutes? rest
      return (minutes (-n), rest)
  | _ => none

/- A zone offset as text; no distance has a plus. -/
def text : ZoneOffset → List Char
  | utc => ['Z']
  | minutes n =>
      (if n < 0 then '-' else '+')
        :: (padded 2 (n.natAbs / 60)
          ++ ':' :: padded 2 (n.natAbs % 60))

end ZoneOffset

------------------------------------------------------------
-- Moments
------------------------------------------------------------

/- A date, a time of day, or both. -/
inductive Moment where
  | date (d : Date)
  | time (t : TimeOfDay)
  | both (d : Date) (t : TimeOfDay) (offset : Option ZoneOffset)
deriving DecidableEq, Repr

namespace Moment

/- The time of day that may follow a date, and its offset. -/
def readTime?
    (text : List Char) :
    Option ((TimeOfDay × Option ZoneOffset) × List Char) :=
  match text with
  | mark :: rest =>
      if mark == 'T' || mark == 't' || mark == ' ' then
        match TimeOfDay.read? rest with
        | none => none
        | some (t, rest) =>
            match ZoneOffset.read? rest with
            | some (offset, rest) =>
                some ((t, some offset), rest)
            | none => some ((t, none), rest)
      else
        none
  | [] => none

/- A moment, and what follows it. -/
def read?
    (text : List Char) : Option (Moment × List Char) :=
  match Date.read? text with
  | some (d, rest) =>
      match readTime? rest with
      | some ((t, offset), rest) =>
          some (both d t offset, rest)
      | none => some (date d, rest)
  | none =>
      (TimeOfDay.read? text).map fun (t, rest) =>
        (time t, rest)

/- A moment as text. -/
def text : Moment → List Char
  | date d => d.text
  | time t => t.text
  | both d t offset =>
      d.text ++ 'T' :: t.text
        ++ (offset.map ZoneOffset.text).getD []

end Moment
end Toml
end BlockScript
