import BlockScript.Lexer

/-
  This file writes text as one token of a script: bare where
  it is read back as a word, and in quotes elsewhere.

  Key definitions include:
    * `Word.quoted`
    * `Word.isBare`
    * `Word.written`
-/

namespace BlockScript
namespace Word

------------------------------------------------------------
-- Written Words
------------------------------------------------------------

/- One character inside quotes. -/
def escape (c : Char) : List Char :=
  if c = '"' ∨ c = '\\' then ['\\', c] else [c]

/- A text in quotes. -/
def quoted (text : List Char) : List Char :=
  '"' :: (text.flatMap escape ++ ['"'])

/- Whether a comment starts anywhere in a text. -/
def holdsComment : List Char → Bool
  | [] => false
  | c :: rest => startsComment (c :: rest) || holdsComment rest

/-
  Whether a text is written without quotes. A backslash alone
  is not special in a word, but is always quoted.
-/
def isBare (text : List Char) : Bool :=
  !text.isEmpty
    && !holdsComment text
    && text.all fun c => !isDelimiter c && c != '\\'

/- A text as one token. -/
def written (text : List Char) : List Char :=
  if isBare text then text else quoted text

end Word
end BlockScript
