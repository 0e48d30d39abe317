import BlockScript.Script
import BlockScript.Value.Printer

/-
  This file writes scripts back: in the form in which they
  are read, and as summaries.

  Key definitions include:
    * `Block.written`
    * `Script.render`
    * `Script.summary`
-/

namespace BlockScript

------------------------------------------------------------
-- Scripts as Text
------------------------------------------------------------

/- A field on a line of its own. -/
def Field.written (f : Field) : List Char :=
  '\t' :: f.key.toList ++ ' ' :: f.value.written ++ ['\n']

/-
  A block in the form in which it is read. A block that could
  not be read becomes a comment.
-/
def Block.written (b : Block) : List Char :=
  match b.outcome with
  | .parsed fields =>
      b.title.toList ++ [' ', '{', '\n']
        ++ fields.flatMap Field.written ++ ['}', '\n']
  | .failed =>
      "// failed: ".toList ++ b.title.toList ++ ['\n']

/- The blocks of a script in the form in which they are read. -/
def Script.render (s : Script) : String :=
  String.ofList (s.blocks.flatMap Block.written)

------------------------------------------------------------
-- Summaries
------------------------------------------------------------

/- A field on a line of its own, with the type of its value. -/
def Field.summary (f : Field) : String :=
  "  " ++ f.key ++ " = " ++ f.value.summary ++ "\n"

/- A block with what became of it. -/
def Block.summary (b : Block) : String :=
  match b.outcome with
  | .parsed fields =>
      "block " ++ b.title ++ "\n"
        ++ String.join (fields.map Field.summary)
  | .failed => "failed " ++ b.title ++ "\n"

/- The blocks of a script, then its diagnostics. -/
def Script.summary (s : Script) : String :=
  String.join (s.blocks.map Block.summary)
    ++ String.join (s.diagnostics.map fun d => d.text ++ "\n")

end BlockScript
