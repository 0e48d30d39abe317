import BlockScript.Cli.Arguments
import BlockScript.Cli.Files
import BlockScript.Diagnostic.Excerpt
import BlockScript.Script.Json
import BlockScript.Script.Printer
import BlockScript.Settings.Layers

/-
  This file carries out commands. How files are read is left
  open: everything here works for a way to read given as an
  argument.

  Key definitions include:
    * `Cli.Response`
    * `Cli.reportJson`
    * `Cli.checkSource`
    * `Cli.dumpSource`
    * `Cli.listKinds`
    * `Cli.Invocation.run`
-/

namespace BlockScript
namespace Cli

------------------------------------------------------------
-- Responses
------------------------------------------------------------

/- What a run writes, and whether it passed. -/
structure Response where
  stdout : String := ""
  stderr : String := ""
  passed : Bool := true
deriving DecidableEq, Repr

namespace Response

/- One response after another; both have to pass. -/
def append (a b : Response) : Response :=
  { stdout := a.stdout ++ b.stdout,
    stderr := a.stderr ++ b.stderr,
    passed := a.passed && b.passed }

/- A failure with a message. -/
def failure (message : String) : Response :=
  { stderr := "Error: " ++ message ++ "\n", passed := false }

/- The exit code. -/
def exitCode (r : Response) : Nat :=
  if r.passed then 0 else 1

end Response

/- Lines, each with its line feed. -/
def unlines (lines : List String) : String :=
  String.join (lines.map (· ++ "\n"))

------------------------------------------------------------
-- Commands on Sources
------------------------------------------------------------

/- The report on a script as JSON. -/
def reportJson
    (file : String)
    (errors warnings : Nat)
    (diagnostics : List Diagnostic) : Json :=
  .object
    [ ("file", .string file),
      ("errors", .ofNat errors),
      ("warnings", .ofNat warnings),
      ("diagnostics", Diagnostics.toJson diagnostics) ]

/- The last line on a script. -/
def tally
    (file : String)
    (blocks errors warnings : Nat) : String :=
  file ++ ": " ++ blocks.repr ++ " blocks, " ++ errors.repr
    ++ " errors, " ++ warnings.repr ++ " warnings"

/- Check a script. -/
def checkSource
    (settings : Settings)
    (registry : Registry)
    (file source : String) : Response :=
  let script := Script.parse registry source
  let ds := script.diagnostics
  let errors := (Diagnostics.errors ds).length
  let warnings := (Diagnostics.warnings ds).length
  let passed := !settings.fails errors warnings
  match settings.format with
  | .text =>
      { stderr :=
          unlines (Diagnostics.format ds source (some file)),
        stdout :=
          unlines
            [tally file script.blocks.length errors warnings],
        passed }
  | .json =>
      { stdout :=
          unlines [(reportJson file errors warnings ds).compact],
        passed }

/- Write the blocks of a script. -/
def dumpSource
    (settings : Settings)
    (registry : Registry)
    (source : String) : Response :=
  let script := Script.parse registry source
  { stdout :=
      match settings.format with
      | .text => script.render
      | .json => unlines [script.toJson.pretty],
    passed := !Diagnostics.hasErrors script.diagnostics }

/- The form of the blocks of a kind. -/
def kindForm (kind : BlockKind) : String :=
  kind.keyword
    ++ (if kind.named then " <name>" else "")
    ++ " \x7b ... \x7d"

/- List the block kinds. -/
def listKinds (registry : Registry) : Response :=
  { stdout := unlines (registry.kinds.map kindForm) }

------------------------------------------------------------
-- Runs
------------------------------------------------------------

section

variable {m : Type → Type} [Monad m]

/- A way to read the file at a path. -/
abbrev Reader (m : Type → Type) :=
  String → m (Except ReadError ByteArray)

/- Check scripts in order, up to the first unreadable one. -/
def checkFiles
    (read : Reader m)
    (settings : Settings)
    (registry : Registry)
    (done : Response) : List String → m Response
  | [] => pure done
  | file :: files => do
      match decodeText (← read file) with
      | .error e => return done.append (.failure e.message)
      | .ok source =>
          checkFiles read settings registry
            (done.append
              (checkSource settings registry file source))
            files

/- Write the blocks of one script. -/
def dumpFile
    (read : Reader m)
    (settings : Settings)
    (registry : Registry)
    (file : String) : m Response := do
  match decodeText (← read file) with
  | .error e => return .failure e.message
  | .ok source => return dumpSource settings registry source

/-
  The path with an ending added to its last name. A path that
  leads up has none.
-/
def addEnding?
    (path ending : String) : Option String :=
  let isStay := FileTree.isStay
  let names := (path.splitOn "/").reverse.dropWhile isStay
  match names with
  | [] => none
  | name :: rest =>
      if name == ".." then
        none
      else
        some ("/".intercalate
          ((name ++ ending) :: rest).reverse)

/- The text of a settings file that has been read. -/
def configText
    (bytes : ByteArray) : Option (List Char) :=
  (String.fromUTF8? bytes).map String.toList

/-
  The layer of a settings file. If there is no file at a path,
  the ending may have been left out of its name.
-/
def configLayer
    (read : Reader m)
    (path : String)
    (optional : Bool) : m Settings.Layer := do
  match ← read path with
  | .ok bytes => return { text := configText bytes, optional }
  | .error _ =>
      match addEnding? path ".toml" with
      | none => return { text := none, optional }
      | some path =>
          match ← read path with
          | .ok bytes =>
              return { text := configText bytes, optional }
          | .error _ => return { text := none, optional }

/- The settings file of a directory. -/
def localConfig : String :=
  "ufoscript.toml"

/- The settings that a command gives itself. -/
def Command.overrides :
    Command → List (String × Setting)
  | check _ true =>
      [("diagnostics.warnings_as_errors", .bool true)]
  | dump _ (some format) =>
      [("output.format", .text format.name)]
  | _ => []

/- The settings of a run. -/
def Invocation.settings
    (i : Invocation)
    (read : Reader m) :
    m (Except Settings.LoadError Settings) := do
  let base ← configLayer read localConfig true
  let layers ←
    match i.config with
    | some path => do
        pure [base, ← configLayer read path false]
    | none => pure [base]
  return Settings.load layers i.command.overrides

/- Carry out a command. -/
def Command.run
    (command : Command)
    (read : Reader m)
    (settings : Settings)
    (registry : Registry) : m Response :=
  match command with
  | check files _ =>
      checkFiles read settings registry {} files
  | dump file _ => dumpFile read settings registry file
  | kinds => pure (listKinds registry)

/- Carry out what a command line asks for. -/
def Invocation.run
    (i : Invocation)
    (read : Reader m) : m Response := do
  match ← i.settings read with
  | .error e =>
      return .failure ("invalid configuration: " ++ e.message)
  | .ok settings =>
      match settings.registry.buildRegistry with
      | .error e => return .failure e.message
      | .ok registry =>
          let warnings : Response :=
            { stderr :=
                unlines
                  (registry.duplicateDiagnostics.map
                    Diagnostic.text) }
          let response ← i.command.run read settings registry
          return warnings.append response

end

end Cli
end BlockScript
