/-
  This file defines JSON values and writes them, on one line
  or indented.

  Key definitions include:
    * `Json`
    * `Json.quoted`
    * `Json.compact`
    * `Json.pretty`
-/

namespace BlockScript

------------------------------------------------------------
-- JSON Values
------------------------------------------------------------

/-
  A JSON value. The members of an object keep their order,
  and a number is given by its text.
-/
inductive Json where
  | null
  | bool (b : Bool)
  | number (digits : String)
  | string (text : String)
  | array (items : List Json)
  | object (members : List (String × Json))

namespace Json

/- A natural number. -/
def ofNat (n : Nat) : Json :=
  number n.repr

/- A value or null. -/
def ofOption
    {α : Type}
    (encode : α → Json) : Option α → Json
  | some a => encode a
  | none => null

------------------------------------------------------------
-- Strings
------------------------------------------------------------

/- The four hexadecimal digits of a control character. -/
def controlEscape (c : Char) : List Char :=
  let digits := Nat.toDigits 16 c.toNat
  '\\' :: 'u' :: List.replicate (4 - digits.length) '0'
    ++ digits

/- One character inside a JSON string. -/
def escape (c : Char) : List Char :=
  match c with
  | '"' => ['\\', '"']
  | '\\' => ['\\', '\\']
  | '\n' => ['\\', 'n']
  | '\r' => ['\\', 'r']
  | '\t' => ['\\', 't']
  | '\x08' => ['\\', 'b']
  | '\x0c' => ['\\', 'f']
  | c => if c.toNat < 0x20 then controlEscape c else [c]

/- A text as a JSON string. -/
def quoted (text : String) : String :=
  String.ofList ('"' :: (text.toList.flatMap escape ++ ['"']))

/- A truth value. -/
def boolText (b : Bool) : String :=
  if b then "true" else "false"

------------------------------------------------------------
-- Compact Text
------------------------------------------------------------

mutual

/- A value on one line with no blanks. -/
def compact : Json → String
  | null => "null"
  | bool b => boolText b
  | number digits => digits
  | string text => quoted text
  | array items =>
      "[" ++ ",".intercalate (compactItems items) ++ "]"
  | object members =>
      "\x7b" ++ ",".intercalate (compactMembers members)
        ++ "\x7d"

/- The items of an array on one line each. -/
def compactItems : List Json → List String
  | [] => []
  | item :: items => item.compact :: compactItems items

/- The members of an object on one line each. -/
def compactMembers : List (String × Json) → List String
  | [] => []
  | (key, value) :: members =>
      (quoted key ++ ":" ++ value.compact)
        :: compactMembers members

end

------------------------------------------------------------
-- Indented Text
------------------------------------------------------------

/- A line feed and two blanks for each level. -/
def newline (level : Nat) : String :=
  String.ofList ('\n' :: List.replicate (2 * level) ' ')

/-
  Parts on lines of their own, one level deeper, between two
  brackets. No parts leave the brackets together.
-/
def bracketed
    (level : Nat)
    (opening closing : String)
    (parts : List String) : String :=
  if parts.isEmpty then
    opening ++ closing
  else
    opening ++ newline (level + 1)
      ++ ("," ++ newline (level + 1)).intercalate parts
      ++ newline level ++ closing

mutual

/- A value over several lines, inside some levels. -/
def prettyAt
    (level : Nat) : Json → String
  | null => "null"
  | bool b => boolText b
  | number digits => digits
  | string text => quoted text
  | array items =>
      bracketed level "[" "]" (prettyItems (level + 1) items)
  | object members =>
      bracketed level "\x7b" "\x7d"
        (prettyMembers (level + 1) members)

/- The items of an array, inside some levels. -/
def prettyItems
    (level : Nat) : List Json → List String
  | [] => []
  | item :: items =>
      item.prettyAt level :: prettyItems level items

/- The members of an object, inside some levels. -/
def prettyMembers
    (level : Nat) : List (String × Json) → List String
  | [] => []
  | (key, value) :: members =>
      (quoted key ++ ": " ++ value.prettyAt level)
        :: prettyMembers level members

end

/- A value over several lines, indented by two blanks. -/
def pretty (j : Json) : String :=
  j.prettyAt 0

end Json
end BlockScript
