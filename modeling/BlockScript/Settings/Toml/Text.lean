import BlockScript.Text.Blank

/-
  This file reads what a settings file is made of below its
  values: blanks, comments, line ends, strings and keys. All
  readers return what follows the thing read.

  Key definitions include:
    * `Toml.endLine?`
    * `Toml.skipLines`
    * `Toml.escape?`
    * `Toml.string?`
    * `Toml.key?`
-/

namespace BlockScript
namespace Toml

------------------------------------------------------------
-- Layout
------------------------------------------------------------

/- Control characters, of which only the tab may stand. -/
def isForbidden (c : Char) : Bool :=
  (c.toNat < 0x20 && c != '\t') || c.toNat == 0x7F

/- What follows a line end. -/
def newLine? : List Char → Option (List Char)
  | '\n' :: rest => some rest
  | '\r' :: '\n' :: rest => some rest
  | _ => none

/-
  Drop what may follow the last thing on a line: blanks, a
  comment, and the end of the line.
-/
def endLine? (text : List Char) : Option (List Char) :=
  let rest :=
    match Text.dropIndent text with
    | '#' :: comment => comment.dropWhile (!isForbidden ·)
    | rest => rest
  if rest.isEmpty then some [] else newLine? rest

/-
  Drop blanks, comments and line ends. The first argument
  bounds the number of lines.
-/
def skipLines : Nat → List Char → List Char
  | 0, text => text
  | n + 1, text =>
      let text := Text.dropIndent text
      if text.isEmpty then
        []
      else
        match endLine? text with
        | some rest => skipLines n rest
        | none => text

/- Drop blanks and line ends. -/
def skipGap : List Char → List Char
  | ' ' :: rest => skipGap rest
  | '\t' :: rest => skipGap rest
  | '\n' :: rest => skipGap rest
  | '\r' :: '\n' :: rest => skipGap rest
  | rest => rest

------------------------------------------------------------
-- Escapes
------------------------------------------------------------

/- The value of a digit in a base up to sixteen. -/
def digitValue? (c : Char) : Option Nat :=
  let c := c.toLower
  if c.isDigit then
    some (c.toNat - '0'.toNat)
  else if 'a' ≤ c ∧ c ≤ 'f' then
    some (c.toNat - 'a'.toNat + 10)
  else
    none

/- The character that some hexadecimal digits number. -/
def numbered?
    (count : Nat)
    (text : List Char) : Option (Char × List Char) :=
  if (text.take count).length < count then
    none
  else do
    let n ← (text.take count).foldlM
      (fun n c => do return 16 * n + (← digitValue? c)) 0
    if n.isValidChar then
      some (Char.ofNat n, text.drop count)
    else
      none

/- The characters that letters stand for after a backslash. -/
def escapes : List (Char × Char) :=
  [ ('b', '\x08'), ('t', '\t'), ('n', '\n'), ('f', '\x0c'),
    ('r', '\r'), ('"', '"'), ('\\', '\\') ]

/- The character that stands after a backslash. -/
def escape? : List Char → Option (Char × List Char)
  | 'u' :: rest => numbered? 4 rest
  | 'U' :: rest => numbered? 8 rest
  | letter :: rest =>
      (escapes.lookup letter).map fun c => (c, rest)
  | [] => none

------------------------------------------------------------
-- Strings
------------------------------------------------------------

/- The marks around strings that keep their backslashes. -/
def apostrophe : Char :=
  '\x27'

/-
  The rest of a string in double quotes. The first argument
  bounds its length, and `seen` holds its characters so far,
  last first.
-/
def basicString
    (seen : List Char) :
    Nat → List Char → Option (String × List Char)
  | 0, _ => none
  | n + 1, text =>
      match text with
      | '"' :: rest =>
          some (String.ofList seen.reverse, rest)
      | '\\' :: rest => do
          let (c, rest) ← escape? rest
          basicString (c :: seen) n rest
      | c :: rest =>
          if isForbidden c then
            none
          else
            basicString (c :: seen) n rest
      | [] => none

/- The rest of a string in single quotes. -/
def literalString
    (text : List Char) : Option (String × List Char) :=
  let isContent := fun c =>
    !isForbidden c && c != apostrophe
  match text.dropWhile isContent with
  | [] => none
  | c :: rest =>
      if c == apostrophe then
        some (String.ofList (text.takeWhile isContent), rest)
      else
        none

/-
  The rest of a string between three marks at either end. One
  or two marks may stand inside it, also before the closing
  three. A backslash at the end of a line takes the gap after
  it away, if backslashes have a meaning.
-/
def longString
    (mark : Char)
    (seen : List Char) :
    Nat → List Char → Option (String × List Char)
  | 0, _ => none
  | n + 1, text =>
      let marks := (text.takeWhile (· == mark)).take 5
      let rest := text.drop marks.length
      if 3 ≤ marks.length then
        some (String.ofList (marks.drop 3 ++ seen).reverse, rest)
      else if 0 < marks.length then
        longString mark (marks ++ seen) n rest
      else
        match newLine? text, text with
        | some rest, _ => longString mark ('\n' :: seen) n rest
        | none, [] => none
        | none, c :: rest =>
            if isForbidden c then
              none
            else if c != '\\' || mark == apostrophe then
              longString mark (c :: seen) n rest
            else
              match newLine? (Text.dropIndent rest) with
              | some rest =>
                  longString mark seen n (skipGap rest)
              | none => do
                  let (c, rest) ← escape? rest
                  longString mark (c :: seen) n rest

/- A string of any of the four sorts. -/
def string?
    (text : List Char) : Option (String × List Char) :=
  match text with
  | '"' :: '"' :: '"' :: rest =>
      longString '"' [] text.length
        ((newLine? rest).getD rest)
  | '\x27' :: '\x27' :: '\x27' :: rest =>
      longString apostrophe [] text.length
        ((newLine? rest).getD rest)
  | '"' :: rest => basicString [] text.length rest
  | '\x27' :: rest => literalString rest
  | _ => none

------------------------------------------------------------
-- Keys
------------------------------------------------------------

/- Characters of a key without quotes. -/
def isBareKeyChar (c : Char) : Bool :=
  c.isAlphanum || c == '_' || c == '-'

/- One part of a key. -/
def keyPart?
    (text : List Char) : Option (String × List Char) :=
  match text with
  | '"' :: rest => basicString [] text.length rest
  | '\x27' :: rest => literalString rest
  | _ =>
      let bare := text.takeWhile isBareKeyChar
      if bare.isEmpty then
        none
      else
        some (String.ofList bare, text.dropWhile isBareKeyChar)

/-
  A key: parts with dots between them. The first argument
  bounds the number of parts.
-/
def key? : Nat → List Char → Option (List String × List Char)
  | 0, _ => none
  | n + 1, text => do
      let (part, rest) ← keyPart? (Text.dropIndent text)
      match Text.dropIndent rest with
      | '.' :: rest =>
          let (parts, rest) ← key? n rest
          return (part :: parts, rest)
      | rest => return ([part], rest)

end Toml
end BlockScript
