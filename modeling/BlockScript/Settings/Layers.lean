import BlockScript.Settings
import BlockScript.Settings.Path
import BlockScript.Settings.Toml

/-
  This file puts settings together from layers: built-in
  values, files, and single settings given for a run.

  Key definitions include:
    * `Settings.Layer`
    * `Settings.defaults`
    * `Settings.ofTree?`
    * `Settings.load`
-/

namespace BlockScript
namespace Settings

------------------------------------------------------------
-- Layers
------------------------------------------------------------

/- Why settings cannot be put together. -/
inductive LoadError where
  | unreadableFile
  | malformedFile
  | badOverride (path : String)
  | invalid
deriving DecidableEq, Repr

/- The wording of an error. -/
def LoadError.message : LoadError → String
  | unreadableFile => "configuration file cannot be read"
  | malformedFile => "configuration file is malformed"
  | badOverride path => "'" ++ path ++ "' is no path"
  | invalid => "a setting is missing or has a wrong value"

/-
  A settings file: its text if it can be read, and whether it
  counts as empty otherwise.
-/
structure Layer where
  text : Option (List Char)
  optional : Bool := false

/- The settings of a file that has to be well formed. -/
def Layer.entries
    (l : Layer) : Except LoadError Setting.Entries :=
  match l.text with
  | some text =>
      match Toml.parse? text with
      | some es => .ok es
      | none => .error .malformedFile
  | none =>
      if l.optional then .ok [] else .error .unreadableFile

/- The settings that hold when nothing is set. -/
def defaults : Setting :=
  .table
    [ ("registry", .table
        [ ("duplicate_policy", .text "replace"),
          ("disabled_kinds", .list []),
          ("extra_kinds", .list []) ]),
      ("diagnostics", .table
        [("warnings_as_errors", .bool false)]),
      ("output", .table [("format", .text "text")]),
      ("log", .table [("level", .text "warn")]) ]

/- Lay a file over the settings so far. -/
def addLayer
    (tree : Setting)
    (l : Layer) : Except LoadError Setting := do
  return tree.overlayFile (← l.entries)

/- Lay a single setting over the settings so far. -/
def addOverride
    (tree : Setting)
    (given : String × Setting) : Except LoadError Setting :=
  match Path.parse? given.1 with
  | some path => .ok (tree.assign given.2 path)
  | none => .error (.badOverride given.1)

------------------------------------------------------------
-- Settings From a Tree
------------------------------------------------------------

/- The policies by name. -/
def policies : List (String × DuplicatePolicy) :=
  [("replace", .replace), ("reject", .reject)]

/- An extra kind; it is named unless it says otherwise. -/
def extraKind? (s : Setting) : Option ExtraKind := do
  let keyword ← (← s.require? 0 "keyword").toText?
  match ← s.member? 1 "named" with
  | some named => return { keyword, named := ← named.toBool? }
  | none => return { keyword }

/- The settings of the registry. -/
def registry? (s : Setting) : Option RegistrySettings := do
  let policy ← s.require? 0 "duplicate_policy"
  let disabled ← s.require? 1 "disabled_kinds"
  let extra ← s.require? 2 "extra_kinds"
  return {
    duplicatePolicy := ← policy.toChoice? policies,
    disabledKinds :=
      ← (← disabled.toItems?).mapM Setting.toText?,
    extraKinds := ← (← extra.toItems?).mapM extraKind? }

/- The settings that a tree holds. Other keys are ignored. -/
def ofTree? (tree : Setting) : Option Settings := do
  let registry ← Setting.get? tree.entries "registry"
  let diagnostics ← Setting.get? tree.entries "diagnostics"
  let output ← Setting.get? tree.entries "output"
  let log ← Setting.get? tree.entries "log"
  let strict ← diagnostics.require? 0 "warnings_as_errors"
  let format ← output.require? 0 "format"
  let level ← log.require? 0 "level"
  return {
    registry := ← registry? registry,
    warningsAsErrors := ← strict.toBool?,
    format := ← format.toChoice? OutputFormat.choices,
    logLevel := ← level.toText? }

/-
  Settings from files, in order, and from single settings
  given for the run. Only what results is checked.
-/
def load
    (layers : List Layer)
    (given : List (String × Setting)) :
    Except LoadError Settings := do
  let tree ← layers.foldlM addLayer defaults
  let tree ← given.foldlM addOverride tree
  match ofTree? tree with
  | some s => return s
  | none => throw .invalid

end Settings
end BlockScript
