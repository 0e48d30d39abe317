import BlockScript.Registry.Standard

/-
  This file defines what can be set for a run, and the
  registry that settings ask for.

  Key definitions include:
    * `OutputFormat`
    * `ExtraKind`
    * `RegistrySettings`
    * `RegistrySettings.buildRegistry`
    * `Settings`
    * `Settings.fails`
-/

namespace BlockScript

------------------------------------------------------------
-- Registry Settings
------------------------------------------------------------

/- A block kind whose bodies are not looked into. -/
structure ExtraKind where
  keyword : String
  named : Bool := true
deriving DecidableEq, Repr

/- The block kind that an extra kind stands for. -/
def ExtraKind.blockKind (e : ExtraKind) : BlockKind :=
  { keyword := e.keyword,
    named := e.named,
    body := .unstructured }

/- Which block kinds there are. -/
structure RegistrySettings where
  duplicatePolicy : DuplicatePolicy := .replace
  disabledKinds : List String := []
  extraKinds : List ExtraKind := []
deriving DecidableEq, Repr

namespace RegistrySettings

/- The standard kinds that are not disabled. -/
def enabledKinds (s : RegistrySettings) : List BlockKind :=
  standardKinds.filter fun kind =>
    !s.disabledKinds.contains kind.keyword

/-
  The registry of the enabled standard kinds, followed by the
  extra kinds.
-/
def buildRegistry
    (s : RegistrySettings) : Except RegistryError Registry :=
  let start : Registry.Builder :=
    { policy := s.duplicatePolicy }
  let kinds :=
    s.enabledKinds ++ s.extraKinds.map ExtraKind.blockKind
  match start.registerAll kinds with
  | .ok builder => .ok builder.build
  | .error e => .error e

end RegistrySettings

------------------------------------------------------------
-- Settings
------------------------------------------------------------

/- How results are written. -/
inductive OutputFormat where
  | text
  | json
deriving DecidableEq, Repr

namespace OutputFormat

/- The name of a format. -/
def name : OutputFormat → String
  | text => "text"
  | json => "json"

/- The formats by name. -/
def choices : List (String × OutputFormat) :=
  [text, json].map fun f => (f.name, f)

end OutputFormat

/- Everything that can be set for a run. -/
structure Settings where
  registry : RegistrySettings := {}
  warningsAsErrors : Bool := false
  format : OutputFormat := .text
  logLevel : String := "warn"
deriving DecidableEq, Repr

/- Whether a run with so many errors and warnings fails. -/
def Settings.fails
    (s : Settings)
    (errors warnings : Nat) : Bool :=
  0 < errors || (s.warningsAsErrors && 0 < warnings)

end BlockScript
