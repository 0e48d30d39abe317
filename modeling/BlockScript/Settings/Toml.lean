import BlockScript.Settings.Toml.Moment
import BlockScript.Settings.Toml.Node
import BlockScript.Settings.Toml.Numeral
import BlockScript.Settings.Toml.Text

/-
  This file reads settings files, which are written in TOML.
  Dates and times are settings by their text.

  Key definitions include:
    * `Toml.scalar?`
    * `Toml.value`
    * `Toml.Document`
    * `Toml.parse?`
-/

namespace BlockScript
namespace Toml

------------------------------------------------------------
-- Values
------------------------------------------------------------

/- How many values a value may stand in. -/
def nestingLimit : Nat :=
  79

/- How many parts a key may have. -/
def partLimit : Nat :=
  79

/- A value that holds no others. -/
def scalar?
    (text : List Char) : Option (Setting × List Char) :=
  match text with
  | 't' :: 'r' :: 'u' :: 'e' :: rest =>
      some (.bool true, rest)
  | 'f' :: 'a' :: 'l' :: 's' :: 'e' :: rest =>
      some (.bool false, rest)
  | _ =>
      match string? text, Moment.read? text with
      | some (s, rest), _ => some (.text s, rest)
      | none, some (m, rest) =>
          some (.text (String.ofList m.text), rest)
      | none, none => numeral? text

/- A way to read a value from the front of a text. -/
abbrev ValueReader :=
  List Char → Option (Setting × List Char)

/-
  The items of an array after those in `seen`, last first.
  The number bounds how many follow.
-/
def arrayItems
    (item : ValueReader)
    (seen : List Setting) :
    Nat → ValueReader
  | _, ']' :: rest => some (.list seen.reverse, rest)
  | 0, _ => none
  | n + 1, text => do
      let (s, rest) ← item text
      match skipLines rest.length rest with
      | ',' :: rest =>
          arrayItems item (s :: seen) n
            (skipLines rest.length rest)
      | ']' :: rest => return (.list (s :: seen).reverse, rest)
      | _ => none

/-
  The entries of an inline table after those in `seen`. The
  number bounds how many follow.
-/
def inlineEntries
    (item : ValueReader)
    (seen : Nodes) :
    Nat → ValueReader
  | 0, _ => none
  | n + 1, text => do
      let (path, rest) ← key? partLimit text
      match rest with
      | '=' :: rest =>
          let (s, rest) ← item (Text.dropIndent rest)
          let seen ← define s seen path
          match Text.dropIndent rest with
          | ',' :: rest => inlineEntries item seen n rest
          | '}' :: rest => return (.table (settings seen), rest)
          | _ => none
      | _ => none

/-
  A value. The number bounds how deep others stand in it.
-/
def value : Nat → ValueReader
  | 0, text => scalar? text
  | n + 1, text =>
      match text with
      | '[' :: rest =>
          arrayItems (value n) [] rest.length
            (skipLines rest.length rest)
      | '{' :: rest =>
          match Text.dropIndent rest with
          | '}' :: rest => some (.table [], rest)
          | rest => inlineEntries (value n) [] rest.length rest
      | text => scalar? text

------------------------------------------------------------
-- Documents
------------------------------------------------------------

/- A file read so far, and the table that entries go to. -/
structure Document where
  root : Nodes := []
  header : List String := []

/- Open the table at a path, by one of the two headers. -/
def Document.openAt
    (d : Document)
    (change : String → Nodes → Option Nodes)
    (path : List String) : Option Document := do
  let last ← path.getLast?
  let root ← within (change last) d.root path.dropLast
  return { root, header := path }

/- One statement of a file, and what follows its line. -/
def Document.statement
    (d : Document)
    (text : List Char) : Option (Document × List Char) :=
  match text with
  | '[' :: '[' :: rest => do
      let (path, rest) ← key? partLimit rest
      match rest with
      | ']' :: ']' :: rest =>
          return (← d.openAt openElement path, ← endLine? rest)
      | _ => none
  | '[' :: rest => do
      let (path, rest) ← key? partLimit rest
      match rest with
      | ']' :: rest =>
          return (← d.openAt openTable path, ← endLine? rest)
      | _ => none
  | _ => do
      let (path, rest) ← key? partLimit text
      match rest with
      | '=' :: rest =>
          let (s, rest) ←
            value nestingLimit (Text.dropIndent rest)
          let root ←
            within (define s · path) d.root d.header
          return ({ d with root }, ← endLine? rest)
      | _ => none

/-
  All statements of a file. The first argument bounds their
  number.
-/
def Document.statements
    (d : Document) :
    Nat → List Char → Option Document
  | 0, _ => none
  | n + 1, text =>
      match skipLines text.length text with
      | [] => some d
      | text => do
          let (d, rest) ← d.statement text
          d.statements n rest

/-
  The settings of a file, if it is well formed. A byte order
  mark may stand in front.
-/
def parse? (text : List Char) : Option Setting.Entries := do
  let text :=
    match text with
    | '\uFEFF' :: rest => rest
    | _ => text
  let d ← ({} : Document).statements (text.length + 1) text
  return settings d.root

end Toml
end BlockScript
