import BlockScript.Settings.Tree

/-
  This file defines what a settings file holds while it is
  read, and the rules on which tables may still grow.

  Key definitions include:
    * `Toml.Node`
    * `Toml.settings`
    * `Toml.openTable`
    * `Toml.openElement`
    * `Toml.define`
-/

namespace BlockScript
namespace Toml

------------------------------------------------------------
-- Nodes
------------------------------------------------------------

/-
  How a table came to be: by a header of its own, on the way
  to another header, or by a dotted key.
-/
inductive Origin where
  | header
  | passage
  | dotted
deriving DecidableEq

/-
  What stands under a key while a file is read: a value, a
  table that may still grow, or an array of tables, the last
  of which may still grow.
-/
inductive Node where
  | value (s : Setting)
  | table (origin : Origin) (entries : List (String × Node))
  | tables
      (before : List Setting)
      (entries : List (String × Node))

/- Nodes by key. -/
abbrev Nodes :=
  List (String × Node)

mutual

/- The setting that a node stands for. -/
def Node.setting : Node → Setting
  | .value s => s
  | .table _ es => .table (settings es)
  | .tables before es =>
      .list (before ++ [.table (settings es)])

/- The settings that nodes stand for. -/
def settings : List (String × Node) → Setting.Entries
  | [] => []
  | (key, node) :: es => (key, node.setting) :: settings es

end

/- Put a node under a key, in the place it had before. -/
def put
    (es : Nodes)
    (key : String)
    (node : Node) : Nodes :=
  if (es.lookup key).isSome then
    es.map fun (k, old) => (k, if k = key then node else old)
  else
    es ++ [(key, node)]

------------------------------------------------------------
-- Changes
------------------------------------------------------------

/-
  Change the table that a header names. Tables on the way
  come to be as needed, and an array stands for its last
  table.
-/
def within
    (change : Nodes → Option Nodes)
    (es : Nodes) : List String → Option Nodes
  | [] => change es
  | key :: path =>
      match es.lookup key with
      | none => do
          let inner ← within change [] path
          return put es key (.table .passage inner)
      | some (.table origin inner) => do
          let inner ← within change inner path
          return put es key (.table origin inner)
      | some (.tables before inner) => do
          let inner ← within change inner path
          return put es key (.tables before inner)
      | some (.value _) => none

/- Open the table that a header defines, at most once. -/
def openTable
    (key : String)
    (es : Nodes) : Option Nodes :=
  match es.lookup key with
  | none => some (put es key (.table .header []))
  | some (.table .passage inner) =>
      some (put es key (.table .header inner))
  | some _ => none

/- Add a table to an array of tables. -/
def openElement
    (key : String)
    (es : Nodes) : Option Nodes :=
  match es.lookup key with
  | none => some (put es key (.tables [] []))
  | some (.tables before inner) =>
      let element := Setting.table (settings inner)
      some (put es key (.tables (before ++ [element]) []))
  | some _ => none

/-
  Put a value under a dotted key that is not taken. The way
  may lead through tables that no header has defined, but the
  table at its end is one of dotted keys.
-/
def define
    (s : Setting)
    (es : Nodes) : List String → Option Nodes
  | [] => none
  | [key] =>
      match es.lookup key with
      | none => some (put es key (.value s))
      | some _ => none
  | key :: next :: path =>
      match es.lookup key with
      | none => do
          let inner ← define s [] (next :: path)
          return put es key (.table .dotted inner)
      | some (.table .dotted inner) => do
          let inner ← define s inner (next :: path)
          return put es key (.table .dotted inner)
      | some (.table .passage inner) =>
          if path.isEmpty then
            none
          else do
            let inner ← define s inner (next :: path)
            return put es key (.table .passage inner)
      | some (.tables before inner) =>
          if path.isEmpty then
            none
          else do
            let inner ← define s inner (next :: path)
            return put es key (.tables before inner)
      | some (.table .header _) => none
      | some (.value _) => none

end Toml
end BlockScript
