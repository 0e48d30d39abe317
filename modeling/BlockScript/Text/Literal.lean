import BlockScript.Text.Unseen

/-
  This file writes a text as a quoted literal in which every
  character that could not be told apart on a page is
  replaced by an escape.

  Key definitions include:
    * `escapeSeen`
    * `literal`
-/

namespace BlockScript
namespace Text

------------------------------------------------------------
-- Literals
------------------------------------------------------------

/- A code point as an escape with lowercase hexadecimal digits. -/
def codePointEscape (c : Char) : List Char :=
  "\\u\x7b".toList ++ Nat.toDigits 16 c.toNat ++ ['}']

/- One character inside a literal. -/
def escapeSeen (c : Char) : List Char :=
  match c with
  | '"' => ['\\', '"']
  | '\\' => ['\\', '\\']
  | '\t' => ['\\', 't']
  | '\r' => ['\\', 'r']
  | '\n' => ['\\', 'n']
  | '\x00' => ['\\', '0']
  | c => if isUnseen c then codePointEscape c else [c]

/- The text between double quotes, escaped. -/
def literal (text : List Char) : List Char :=
  '"' :: (text.flatMap escapeSeen ++ ['"'])

end Text
end BlockScript
