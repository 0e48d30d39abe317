import BlockScript.Token

/-
  This file defines what is reported about a script: the
  problems that can be found, their wording, and diagnostics,
  which are problems put at a place.

  Key definitions include:
    * `Severity`
    * `DiagnosticKind`
    * `Problem`
    * `Diagnostic`
    * `Diagnostic.text`
-/

namespace BlockScript

------------------------------------------------------------
-- Severities
------------------------------------------------------------

/- How much a diagnostic matters. -/
inductive Severity where
  | warning
  | error
deriving DecidableEq, Repr

/- A severity in messages. -/
def Severity.text : Severity → String
  | warning => "warning"
  | error => "error"

------------------------------------------------------------
-- Kinds of Diagnostics
------------------------------------------------------------

/- What sort of thing a diagnostic is about. -/
inductive DiagnosticKind where
  | unknownKeyword
  | missingName
  | missingBody
  | malformedBody
  | duplicateRegistration
  | unexpectedToken
  | unexpectedEof
  | unterminatedString
  | unterminatedComment
deriving DecidableEq, Repr

namespace DiagnosticKind

/- Every kind, in order of declaration. -/
def all : List DiagnosticKind :=
  [ unknownKeyword, missingName, missingBody, malformedBody,
    duplicateRegistration, unexpectedToken, unexpectedEof,
    unterminatedString, unterminatedComment ]

/-
  What a script cannot mean is an error; what it may mean
  elsewhere is a warning.
-/
def severity : DiagnosticKind → Severity
  | unknownKeyword | duplicateRegistration => .warning
  | _ => .error

/- The two words that name a kind. -/
def words : DiagnosticKind → List String
  | unknownKeyword => ["unknown", "keyword"]
  | missingName => ["missing", "name"]
  | missingBody => ["missing", "body"]
  | malformedBody => ["malformed", "body"]
  | duplicateRegistration => ["duplicate", "registration"]
  | unexpectedToken => ["unexpected", "token"]
  | unexpectedEof => ["unexpected", "eof"]
  | unterminatedString => ["unterminated", "string"]
  | unterminatedComment => ["unterminated", "comment"]

/- The name of a kind in messages. -/
def code (k : DiagnosticKind) : String :=
  "-".intercalate k.words

/- The kind with a given name in messages. -/
def ofCode? (name : String) : Option DiagnosticKind :=
  all.find? (·.code == name)

end DiagnosticKind

------------------------------------------------------------
-- Problems
------------------------------------------------------------

/-
  What can be found wrong with a script or a registry. `found`
  is the token met instead, absent at the end of input.
-/
inductive Problem where
  | openString
  | openComment
  | strayToken (found : Token)
  | openGroup
  | unknownKeyword (keyword : String)
  | openUnknownBlock
  | missingName (keyword : String) (found : Option Token)
  | missingBody (keyword : String) (found : Option Token)
  | malformedBody (keyword cause : String)
  | openBlock (keyword : String)
  | repeatedKeyword (keyword : String)

namespace Problem

/- The kind under which a problem is reported. -/
def kind : Problem → DiagnosticKind
  | openString => .unterminatedString
  | openComment => .unterminatedComment
  | strayToken _ => .unexpectedToken
  | unknownKeyword _ => .unknownKeyword
  | openGroup | openUnknownBlock | openBlock _ =>
      .unexpectedEof
  | missingName _ _ => .missingName
  | missingBody _ _ => .missingBody
  | malformedBody _ _ => .malformedBody
  | repeatedKeyword _ => .duplicateRegistration

/- The token met instead, at the end of a message. -/
def foundText : Option Token → String
  | some t => ", found " ++ t.describe
  | none => ""

/- The wording of a problem. -/
def message : Problem → String
  | openString => "string is never closed"
  | openComment => "block comment is never closed"
  | strayToken t =>
      "expected a block keyword, found " ++ t.describe
  | openGroup => "input ended inside a '\x7b' group"
  | unknownKeyword keyword =>
      "unknown block keyword '" ++ keyword ++ "'"
  | openUnknownBlock => "input ended inside an unknown block"
  | missingName keyword found =>
      "'" ++ keyword ++ "' block needs a name"
        ++ foundText found
  | missingBody keyword found =>
      "'" ++ keyword ++ "' block has no '\x7b' body"
        ++ foundText found
  | malformedBody keyword cause =>
      "in '" ++ keyword ++ "' block: " ++ cause
  | openBlock keyword =>
      "input ended inside '" ++ keyword ++ "' block"
  | repeatedKeyword keyword =>
      "block keyword '" ++ keyword
        ++ "' was registered more than once; "
        ++ "the last registration wins"

end Problem

------------------------------------------------------------
-- Diagnostics
------------------------------------------------------------

/- A message of some kind, at a place if it has one. -/
structure Diagnostic where
  kind : DiagnosticKind
  message : String
  span : Option Span := none
  location : Option Location := none
deriving DecidableEq, Repr

namespace Diagnostic

/- A problem with no place. -/
def ofProblem (p : Problem) : Diagnostic :=
  { kind := p.kind, message := p.message }

/- The same diagnostic at a place. -/
def place
    (d : Diagnostic)
    (span : Span)
    (location : Location) : Diagnostic :=
  { d with span := some span, location := some location }

/- The severity follows from the kind. -/
def severity (d : Diagnostic) : Severity :=
  d.kind.severity

/- Whether a diagnostic is an error. -/
def isError (d : Diagnostic) : Bool :=
  d.severity == .error

/- Severity and kind in front of a message. -/
def label (d : Diagnostic) : String :=
  d.severity.text ++ "[" ++ d.kind.code ++ "]"

/- A diagnostic on one line. -/
def text (d : Diagnostic) : String :=
  match d.location with
  | some l => d.label ++ " at " ++ l.text ++ ": " ++ d.message
  | none => d.label ++ ": " ++ d.message

end Diagnostic

------------------------------------------------------------
-- Lists of Diagnostics
------------------------------------------------------------

namespace Diagnostics

/- The errors, in order. -/
def errors (ds : List Diagnostic) : List Diagnostic :=
  ds.filter (·.isError)

/- The warnings, in order. -/
def warnings (ds : List Diagnostic) : List Diagnostic :=
  ds.filter (!·.isError)

/- The diagnostics of one kind, in order. -/
def ofKind
    (kind : DiagnosticKind)
    (ds : List Diagnostic) : List Diagnostic :=
  ds.filter (·.kind == kind)

/- Whether there is an error. -/
def hasErrors (ds : List Diagnostic) : Bool :=
  ds.any (·.isError)

end Diagnostics
end BlockScript
