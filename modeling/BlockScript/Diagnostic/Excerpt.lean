import BlockScript.Diagnostic
import BlockScript.Text.Lines

/-
  This file writes a diagnostic together with the line of the
  script that it is about and a row of carets under it.

  Key definitions include:
    * `Diagnostic.header`
    * `Diagnostic.excerpt`
    * `Diagnostic.format`
    * `Diagnostics.format`
-/

namespace BlockScript
namespace Diagnostic

------------------------------------------------------------
-- Excerpts
------------------------------------------------------------

/-
  The first line of a formatted diagnostic. A file name in
  front carries the location.
-/
def header
    (d : Diagnostic)
    (file : Option String) : String :=
  match file, d.location with
  | some file, some l =>
      file ++ ":" ++ l.text ++ ": " ++ d.label ++ ": "
        ++ d.message
  | some file, none => file ++ ": " ++ d.text
  | none, _ => d.text

/- A line number, filled up to four columns from the left. -/
def gutter (line : Nat) : List Char :=
  let digits := Nat.toDigits 10 line
  List.replicate (4 - digits.length) ' ' ++ digits

/- The quoted line with its number. -/
def quotedLine
    (line : Nat)
    (content : List Char) : List Char :=
  [' ', ' '] ++ gutter line ++ [' ', '|', ' '] ++ content

/-
  The row of carets: one for each byte of the span, and at
  least one.
-/
def caretLine
    (column : Nat)
    (span : Option Span) : List Char :=
  let width := (span.map Span.length).getD 1
  List.replicate 7 ' ' ++ ['|', ' ']
    ++ List.replicate (column - 1) ' '
    ++ List.replicate (max width 1) '^'

/-
  The quoted line and the carets, each after a line feed.
  There is none without a location or beyond the last line.
-/
def excerpt
    (d : Diagnostic)
    (lines : Array (List Char)) : List Char :=
  match d.location with
  | none => []
  | some l =>
      match lines[l.line - 1]? with
      | none => []
      | some content =>
          '\n' :: quotedLine l.line content
            ++ '\n' :: caretLine l.column d.span

/- A diagnostic with its excerpt from the lines of a script. -/
def formatLines
    (d : Diagnostic)
    (lines : Array (List Char))
    (file : Option String) : String :=
  d.header file ++ String.ofList (d.excerpt lines)

/- A diagnostic with its excerpt from a script. -/
def format
    (d : Diagnostic)
    (source : String)
    (file : Option String) : String :=
  d.formatLines (Text.lines source.toList).toArray file

end Diagnostic

/-
  Every diagnostic with its excerpt. The script is split into
  lines once.
-/
def Diagnostics.format
    (ds : List Diagnostic)
    (source : String)
    (file : Option String) : List String :=
  let lines := (Text.lines source.toList).toArray
  ds.map fun d => d.formatLines lines file

/- The excerpts are those of each diagnostic by itself. -/
theorem Diagnostics.format_eq_map
    (ds : List Diagnostic)
    (source : String)
    (file : Option String) :
    format ds source file
      = ds.map fun d => d.format source file :=
  rfl

end BlockScript
