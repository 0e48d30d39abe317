import BlockScript.Settings.Tree
import BlockScript.Text.Blank

/-
  This file defines paths into a tree of settings, such as
  `registry.extra_kinds[0].named`, and the change of what
  stands at one.

  Key definitions include:
    * `Step`
    * `Path.parse?`
    * `Setting.assign`
    * `Setting.overlayFile`
-/

namespace BlockScript

------------------------------------------------------------
-- Paths
------------------------------------------------------------

/-
  One step of a path: to the setting under a key, or to an
  item of a list, which a negative number counts from the
  end.
-/
inductive Step where
  | key (name : String)
  | item (index : Int)
deriving DecidableEq, Repr

/- A way from the root of a tree to a setting. -/
abbrev Path :=
  List Step

namespace Path

/- Characters of a key in a path. -/
def isKeyChar (c : Char) : Bool :=
  c.isAlphanum || c == '_' || c == '-' || c == ' '

/- A key of at least one character, and what follows it. -/
def key?
    (text : List Char) : Option (Step × List Char) :=
  let name := text.takeWhile isKeyChar
  if name.isEmpty then
    none
  else
    some (.key (String.ofList name), text.dropWhile isKeyChar)

/-
  The index of an item after its opening bracket, through the
  closing one. Spaces and tabs may stand around the number,
  which has 64 bits.
-/
def item?
    (text : List Char) : Option (Step × List Char) :=
  let inner := Text.dropIndent text
  let (negative, digits) :=
    match inner with
    | '-' :: rest => (true, rest)
    | rest => (false, rest)
  let number := digits.takeWhile Char.isDigit
  let n : Int := Number.ofDigits number
  let index := if negative then -n else n
  match Text.dropIndent (digits.dropWhile Char.isDigit) with
  | ']' :: rest =>
      if number.isEmpty || !Number.Whole.isInRange index then
        none
      else
        some (.item index, rest)
  | _ => none

/-
  The steps after the first one. The first argument bounds
  their number.
-/
def steps? : Nat → List Char → Option Path
  | _, [] => some []
  | 0, _ => none
  | n + 1, c :: rest => do
      let (step, rest) ←
        if c == '.' then
          key? rest
        else if c == '[' then
          item? rest
        else
          none
      return step :: (← steps? n rest)

/- The path that a text is. It starts with a key. -/
def parse? (text : String) : Option Path := do
  let (first, rest) ← key? text.toList
  return first :: (← steps? rest.length rest)

end Path

------------------------------------------------------------
-- Changes
------------------------------------------------------------

namespace Setting

/-
  The place of an index in a list of a length. One that
  counts from the end stops at the first item.
-/
def place
    (length : Nat) : Int → Nat
  | .ofNat n => n
  | .negSucc n => length - (n + 1)

/- Put an item into a list, which is filled up to it. -/
def putItem
    (ss : List Setting)
    (index : Int)
    (s : Setting) : List Setting :=
  let n := place ss.length index
  (ss ++ List.replicate (n + 1 - ss.length) absent).set n s

/- What stands one step below a setting. -/
def below?
    (s : Setting) : Step → Option Setting
  | .key name => get? s.entries (foldKey name)
  | .item index => s.items[place s.items.length index]?

/-
  Put a setting one step below another, which gives way to a
  table or to a list if it is none.
-/
def putBelow
    (s : Setting)
    (step : Step)
    (inner : Setting) : Setting :=
  match step with
  | .key name => table (put s.entries (foldKey name) inner)
  | .item index => list (putItem s.items index inner)

/-
  Change what stands at a path. Under a key the new setting
  is laid over the old one, in a list it replaces it.
-/
def assign
    (old : Setting)
    (s : Setting) : Path → Setting
  | [] => old
  | [.key name] =>
      old.putBelow (.key name)
        (overlay (old.below? (.key name)) s)
  | [.item index] => old.putBelow (.item index) s
  | step :: path =>
      let inner := (old.below? step).getD absent
      old.putBelow step (inner.assign s path)

/-
  Lay a whole file over a tree. Its outermost keys may be
  paths; one that is none is a key as it stands.
-/
def overlayFile
    (old : Setting)
    (file : Entries) : Setting :=
  file.foldl
    (fun tree (key, s) =>
      tree.assign s ((Path.parse? key).getD [.key key]))
    old

end Setting
end BlockScript
