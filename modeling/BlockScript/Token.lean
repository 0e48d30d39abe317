import BlockScript.Position

/-
  This file defines the tokens of a script.

  Key definitions include:
    * `TokenKind`
    * `Token`
    * `Token.isWord`
    * `Token.describe`
-/

namespace BlockScript

------------------------------------------------------------
-- Token Kinds
------------------------------------------------------------

/-
  What sort of token it is: a word that is no number, a
  number, a quoted string, or a brace or parenthesis.
-/
inductive TokenKind where
  | ident
  | number
  | str
  | lBrace
  | rBrace
  | lParen
  | rParen
deriving DecidableEq, Repr

namespace TokenKind

/- The kind of token that one character is by itself. -/
def ofPunctuation? : Char → Option TokenKind
  | '{' => some lBrace
  | '}' => some rBrace
  | '(' => some lParen
  | ')' => some rParen
  | _ => none

/- Whether a token of this kind may be a single value. -/
def isScalar : TokenKind → Bool
  | ident | number | str => true
  | _ => false

end TokenKind

------------------------------------------------------------
-- Tokens
------------------------------------------------------------

/-
  A token with its place. The text of a string is its content
  without the quotes.
-/
structure Token where
  kind : TokenKind
  text : String
  span : Span
  location : Location
deriving DecidableEq, Repr

namespace Token

/- Tokens that may name a block or a field. -/
def isWord (t : Token) : Bool :=
  t.kind == .ident || t.kind == .str

/- A token in messages. -/
def describe (t : Token) : String :=
  match t.kind with
  | .str => "string \"" ++ t.text ++ "\""
  | .number => "number '" ++ t.text ++ "'"
  | _ => "'" ++ t.text ++ "'"

end Token
end BlockScript
