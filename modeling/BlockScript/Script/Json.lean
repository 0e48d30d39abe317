import BlockScript.Json
import BlockScript.Number.Layout
import BlockScript.Number.Whole
import BlockScript.Script

/-
  This file turns scripts and their parts into JSON.

  Key definitions include:
    * `Json.ofSingle`
    * `Value.toJson`
    * `Diagnostic.toJson`
    * `Block.toJson`
    * `Script.toJson`
-/

namespace BlockScript

open Number (Single)

------------------------------------------------------------
-- Numbers
------------------------------------------------------------

/-
  Numbers in JSON have an exponent below a millionth and from
  ten million million on. Whole numbers show a zero after the
  point, and a tie goes to the even numeral.
-/
def Json.numberLayout : Number.Layout :=
  { tie := .even,
    isPositional := fun power => -6 ≤ power ∧ power ≤ 12,
    showsPoint := true }

/- A number, or null if it is not finite. -/
def Json.ofSingle : Single → Json
  | .finite negative k =>
      .number (String.ofList
        (Number.Binary.finiteText (f := Number.Format.single)
          numberLayout negative k))
  | _ => .null

------------------------------------------------------------
-- Values
------------------------------------------------------------

/- The name of the type of a value. -/
def Value.typeName : Value → String
  | int _ => "int"
  | float _ => "float"
  | bool _ => "bool"
  | string _ => "string"
  | translation _ => "translation"
  | vec2 _ _ => "vec2"
  | vec3 _ _ _ => "vec3"
  | vec4 _ _ _ _ => "vec4"
  | list _ => "list"
  | record _ => "record"

/- Something beside the name of its type. -/
def Json.tagged
    (type : String)
    (content : Json) : Json :=
  .object [("type", .string type), ("value", content)]

/- Several numbers. -/
def Json.ofSingles (xs : List Single) : Json :=
  .array (xs.map ofSingle)

mutual

/- A value beside the name of its type. -/
def Value.toJson (v : Value) : Json :=
  .tagged v.typeName <|
    match v with
    | .int n => .number (String.ofList (Number.Whole.text n))
    | .float x => .ofSingle x
    | .bool b => .bool b
    | .string s => .string s
    | .translation s => .string s
    | .vec2 x y => .ofSingles [x, y]
    | .vec3 x y z => .ofSingles [x, y, z]
    | .vec4 x y z w => .ofSingles [x, y, z, w]
    | .list items => .array (items.map Json.string)
    | .record parts => .array (Value.toJsons parts)

/- Several values. -/
def Value.toJsons : List Value → List Json
  | [] => []
  | v :: vs => v.toJson :: Value.toJsons vs

end

------------------------------------------------------------
-- Places and Diagnostics
------------------------------------------------------------

/- A range with both its ends. -/
def Span.toJson (s : Span) : Json :=
  .object [("start", .ofNat s.start), ("end", .ofNat s.stop)]

/- A line and a column. -/
def Location.toJson (l : Location) : Json :=
  .object
    [("line", .ofNat l.line), ("column", .ofNat l.column)]

/- A diagnostic with all its parts. -/
def Diagnostic.toJson (d : Diagnostic) : Json :=
  .object
    [ ("kind", .string ("_".intercalate d.kind.words)),
      ("severity", .string d.severity.text),
      ("message", .string d.message),
      ("span", .ofOption Span.toJson d.span),
      ("location", .ofOption Location.toJson d.location) ]

/- Several diagnostics. -/
def Diagnostics.toJson (ds : List Diagnostic) : Json :=
  .array (ds.map Diagnostic.toJson)

------------------------------------------------------------
-- Blocks and Scripts
------------------------------------------------------------

/- A field with all its parts. -/
def Field.toJson (f : Field) : Json :=
  .object
    [ ("key", .string f.key),
      ("value", f.value.toJson),
      ("span", f.span.toJson) ]

/- A block with what became of it. -/
def Block.toJson (b : Block) : Json :=
  let keyword := ("keyword", Json.string b.keyword)
  let name := ("name", Json.ofOption .string b.name)
  let span := ("span", b.span.toJson)
  match b.outcome with
  | .parsed fields =>
      .object
        [ ("outcome", .string "parsed"), keyword, name,
          ("fields", .array (fields.map Field.toJson)), span ]
  | .failed =>
      .object
        [("outcome", .string "failed"), keyword, name, span]

/- The blocks and the diagnostics of a script. -/
def Script.toJson (s : Script) : Json :=
  .object
    [ ("blocks", .array (s.blocks.map Block.toJson)),
      ("diagnostics", Diagnostics.toJson s.diagnostics) ]

end BlockScript
