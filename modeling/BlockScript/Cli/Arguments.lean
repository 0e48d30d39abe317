import BlockScript.Settings

/-
  This file reads the command line.

  Key definitions include:
    * `Cli.Command`
    * `Cli.Invocation`
    * `Cli.Invocation.parse?`
-/

namespace BlockScript
namespace Cli

------------------------------------------------------------
-- Commands
------------------------------------------------------------

/- What to do. -/
inductive Command where
  | check (files : List String) (strict : Bool)
  | dump (file : String) (format : Option OutputFormat)
  | kinds
deriving DecidableEq, Repr

/- What to do, and a settings file to do it with. -/
structure Invocation where
  config : Option String
  command : Command
deriving DecidableEq, Repr

------------------------------------------------------------
-- Options
------------------------------------------------------------

/- Options that take a value, and flags that take none. -/
inductive Opt where
  | config
  | format
  | watch
  | strict
deriving DecidableEq, Repr

namespace Opt

/- The name of an option after its two dashes. -/
def name : Opt → String
  | config => "config"
  | format => "format"
  | watch => "watch"
  | strict => "warnings-as-errors"

/- Whether an option takes a value. -/
def takesValue : Opt → Bool
  | config | format => true
  | watch | strict => false

end Opt

/- What was given, option by option; files are last first. -/
structure Given where
  options : List (Opt × String) := []
  files : List String := []

namespace Given

/- Whether an option was given. -/
def has
    (g : Given)
    (option : Opt) : Bool :=
  (g.options.lookup option).isSome

/-
  Add an option. None can be given twice, and no value can be
  empty.
-/
def add?
    (g : Given)
    (option : Opt)
    (content : String) : Option Given :=
  if g.has option || (option.takesValue && content.isEmpty) then
    none
  else
    some { g with options := (option, content) :: g.options }

/- Add a file, which has a name. -/
def addFile?
    (g : Given)
    (file : String) : Option Given :=
  if file.isEmpty then
    none
  else
    some { g with files := file :: g.files }

end Given

------------------------------------------------------------
-- Arguments
------------------------------------------------------------

/- What one argument is by its look. -/
inductive Look where
  | plain
  | end
  | option (name : String) (content : Option String)
  | other

/-
  Two dashes begin an option, which may have a value after an
  equals sign; alone they end the options. One dash alone is
  a plain argument.
-/
def look (argument : String) : Look :=
  match argument.toList with
  | ['-', '-'] => .end
  | '-' :: '-' :: rest =>
      let name := rest.takeWhile (· != '=')
      match rest.dropWhile (· != '=') with
      | [] => .option (String.ofList name) none
      | _ :: content =>
          .option (String.ofList name)
            (some (String.ofList content))
  | ['-'] => .plain
  | '-' :: _ => .other
  | _ => .plain

/- Whether an argument can be the value of an option. -/
def isPlain (argument : String) : Bool :=
  match look argument with
  | .plain => true
  | _ => false

/-
  Read the arguments of a command that knows the options
  `known`. Arguments that are no options are files.
-/
def scan
    (known : List Opt)
    (g : Given) : List String → Option Given
  | [] => some g
  | argument :: rest =>
      match look argument with
      | .plain => do scan known (← g.addFile? argument) rest
      | .end => rest.foldlM Given.addFile? g
      | .other => none
      | .option name content => do
          let option ← known.find? (·.name == name)
          if option.takesValue then
            match content, rest with
            | some content, rest =>
                scan known (← g.add? option content) rest
            | none, content :: rest =>
                if isPlain content then
                  scan known (← g.add? option content) rest
                else
                  none
            | none, [] => none
          else if content.isNone then
            scan known (← g.add? option "") rest
          else
            none

/-
  Read the options in front of a command. Gives them, the
  name of the command and its arguments.
-/
def scanFront
    (g : Given) :
    List String → Option (Given × String × List String)
  | [] => none
  | argument :: rest =>
      match look argument with
      | .plain => some (g, argument, rest)
      | .end | .other => none
      | .option name content => do
          if name != Opt.config.name then
            none
          else
            match content, rest with
            | some content, rest =>
                scanFront (← g.add? .config content) rest
            | none, content :: rest =>
                if isPlain content then
                  scanFront (← g.add? .config content) rest
                else
                  none
            | none, [] => none

------------------------------------------------------------
-- Invocations
------------------------------------------------------------

namespace Command

/- The options of the command with a name. -/
def options? (name : String) : Option (List Opt) :=
  match name with
  | "check" => some [.config, .watch, .strict]
  | "dump" => some [.config, .format]
  | "kinds" => some [.config]
  | _ => none

/- The command with a name, for what was given. -/
def ofGiven?
    (name : String)
    (g : Given) : Option Command :=
  match name, g.files.reverse with
  | "check", [] => none
  | "check", files => some (check files (g.has .strict))
  | "dump", [file] =>
      match g.options.lookup .format with
      | none => some (dump file none)
      | some content =>
          (OutputFormat.choices.lookup content).map fun f =>
            dump file (some f)
  | "kinds", [] => some kinds
  | _, _ => none

end Command

/-
  What a command line asks for, if it can be understood. A
  settings file given to the command itself goes before one
  given in front of it.
-/
def Invocation.parse?
    (arguments : List String) : Option Invocation := do
  let (front, name, rest) ← scanFront {} arguments
  let known ← Command.options? name
  let g ← scan known {} rest
  let command ← Command.ofGiven? name g
  let config :=
    g.options.lookup .config <|> front.options.lookup .config
  return { config, command }

end Cli
end BlockScript
