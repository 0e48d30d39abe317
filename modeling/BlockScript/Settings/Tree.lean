import BlockScript.Number.Layout
import BlockScript.Number.Whole

/-
  This file defines trees of settings, their layering, and
  the reading of plain values from them.

  Key definitions include:
    * `Setting`
    * `Setting.overlay`
    * `Setting.toBool?`
    * `Setting.toText?`
    * `Setting.member?`
-/

namespace BlockScript

------------------------------------------------------------
-- Settings
------------------------------------------------------------

/-
  A setting, or a table of settings by key. A place in a list
  that nothing has filled is absent.
-/
inductive Setting where
  | absent
  | bool (b : Bool)
  | int (n : Int)
  | float (x : Number.Double)
  | text (s : String)
  | list (ss : List Setting)
  | table (es : List (String × Setting))

namespace Setting

/- Tables of settings by key. -/
abbrev Entries :=
  List (String × Setting)

/- The entries of a table; any other setting has none. -/
def entries : Setting → Entries
  | table es => es
  | _ => []

/- The items of a list; any other setting has none. -/
def items : Setting → List Setting
  | list ss => ss
  | _ => []

/- The setting under a key. -/
def get?
    (es : Entries)
    (key : String) : Option Setting :=
  es.lookup key

/- Put a setting under a key, in the place it had before. -/
def put
    (es : Entries)
    (key : String)
    (s : Setting) : Entries :=
  if (get? es key).isSome then
    es.map fun (k, old) => (k, if k = key then s else old)
  else
    es ++ [(key, s)]

------------------------------------------------------------
-- Layers
------------------------------------------------------------

/-
  A letter without its case. Beside the ASCII capitals, the
  Kelvin sign is the one character whose small letter is
  ASCII; as all names that have a meaning are ASCII, no other
  letter needs to change.
-/
def foldChar (c : Char) : Char :=
  if c == '\u212A' then 'k' else c.toLower

/- Keys are compared without regard to case. -/
def foldKey (key : String) : String :=
  String.ofList (key.toList.map foldChar)

mutual

/-
  A setting laid over the one in its place. A table is laid
  over entry by entry, and over any other setting as soon as
  it has an entry; all else replaces what was there.
-/
def overlay
    (below : Option Setting)
    (above : Setting) : Setting :=
  match above with
  | table [] => below.getD (table [])
  | table (e :: es) =>
      table (overlayEntries ((below.map entries).getD [])
        (e :: es))
  | other => other

/- Entries laid one after another over a table. -/
def overlayEntries
    (below : Entries)
    (above : Entries) : Entries :=
  match above with
  | [] => below
  | (key, s) :: es =>
      let key := foldKey key
      overlayEntries
        (put below key (overlay (get? below key) s)) es

end

------------------------------------------------------------
-- Plain Values
------------------------------------------------------------

/- The truth value that a word stands for, in any case. -/
def truth? (word : String) : Option Bool :=
  let word := foldKey word
  if ["1", "true", "on", "yes"].contains word then
    some true
  else if ["0", "false", "off", "no"].contains word then
    some false
  else
    none

/- Whether a number is other than zero. -/
def isNonzero : Number.Double → Bool
  | .finite _ k => k.val != 0
  | _ => true

/- A setting as a truth value; numbers are true unless zero. -/
def toBool? : Setting → Option Bool
  | bool b => some b
  | int n => some (n != 0)
  | float x => some (isNonzero x)
  | text s => truth? s
  | _ => none

/- A setting as text. -/
def toText? : Setting → Option String
  | bool b => some (if b then "true" else "false")
  | int n => some (String.ofList (Number.Whole.textOfInt n))
  | float x => some (String.ofList x.text)
  | text s => some s
  | _ => none

/- The items of a list. -/
def toItems? : Setting → Option (List Setting)
  | list ss => some ss
  | _ => none

/-
  One of several words, in any case. A table with one entry
  stands for its key.
-/
def toChoice?
    {α : Type}
    (choices : List (String × α)) : Setting → Option α
  | text s => choices.lookup (foldKey s)
  | table [(key, _)] => choices.lookup (foldKey key)
  | _ => none

/-
  A member of a group of settings, which is a table with the
  member's key or a list with the member at an index. None if
  the setting is no group, `some none` if the member is
  absent.
-/
def member?
    (s : Setting)
    (index : Nat)
    (key : String) : Option (Option Setting) :=
  match s with
  | table es => some (get? es key)
  | list ss => some ss[index]?
  | _ => none

/- A member that has to be present. -/
def require?
    (s : Setting)
    (index : Nat)
    (key : String) : Option Setting :=
  (s.member? index key).join

end Setting
end BlockScript
