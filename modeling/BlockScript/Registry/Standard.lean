import BlockScript.Registry

/-
  This file defines the block kinds that are known from the
  start.

  Key definitions include:
    * `standardKinds`
    * `Registry.standard`

  Key theorems include:
    * `registerAll_standard`
-/

namespace BlockScript

------------------------------------------------------------
-- Fields of the Standard Kinds
------------------------------------------------------------

namespace FieldSpec

/- An integer under a name. -/
def int (name : String) : FieldSpec :=
  { name, type := .scalar .int }

/- A number under a name. -/
def float (name : String) : FieldSpec :=
  { name, type := .scalar .float }

/- A string under a name. -/
def string (name : String) : FieldSpec :=
  { name, type := .scalar .string }

/- A string that may be translated, under a name. -/
def translation (name : String) : FieldSpec :=
  { name, type := .scalar .translation }

end FieldSpec

/- What people and buildings cost. -/
def salaryFields : FieldTable :=
  { specs :=
      [ "soldier_base", "soldier_rankbonus",
        "worker_base", "worker_rankbonus",
        "scientist_base", "scientist_rankbonus",
        "pilot_base", "pilot_rankbonus",
        "robot_base", "robot_rankbonus",
        "aircraft_factor", "aircraft_divisor",
        "base_upkeep", "admin_initial",
        "admin_soldier", "admin_worker",
        "admin_scientist", "admin_pilot",
        "admin_robot" ].map FieldSpec.int
        ++ [FieldSpec.float "debt_interest"] }

/- What is known about a technology. -/
def techFields : FieldTable :=
  { specs :=
      [ .translation "name",
        .translation "description",
        .string "provides",
        { name := "needscollected", type := .scalar .bool },
        .float "time",
        .string "image_top",
        .string "image_bottom",
        .string "mdl_top",
        .string "mdl_bottom" ] }

/-
  The parts of an item: identifier, amount, and amount when
  taken apart, which may be a percent sign.
-/
def componentItem : ValueType :=
  .record [.scalar .string, .scalar .int, .scalar .string]

/- What an item is made of. -/
def componentsFields : FieldTable :=
  { specs :=
      [ { name := "item",
          type := componentItem,
          repeatable := true },
        .int "time" ] }

/- Who may be in a team. -/
def alienTeamFields : FieldTable :=
  { specs :=
      [ .int "mininterest",
        .int "maxinterest",
        { name := "equipment",
          type := .list,
          repeatable := true },
        { name := "category",
          type := .list,
          repeatable := true } ] }

------------------------------------------------------------
-- Standard Kinds
------------------------------------------------------------

/- The kinds known from the start, in order. -/
def standardKinds : List BlockKind :=
  [ { keyword := "physics",
      named := true,
      body := .unstructured },
    { keyword := "salary",
      named := false,
      body := .table salaryFields },
    { keyword := "tech",
      named := true,
      body := .table techFields },
    { keyword := "components",
      named := true,
      body := .table componentsFields },
    { keyword := "alienteam",
      named := true,
      body := .table alienTeamFields } ]

/-
  The registry of the kinds known from the start. They are
  registered one after another, and none is refused.
-/
def Registry.standard : Registry :=
  match Registry.Builder.registerAll {} standardKinds with
  | .ok b => b.build
  | .error _ => .empty

/- All of them are there. -/
theorem registerAll_standard :
    ∃ b,
      Registry.Builder.registerAll {} standardKinds = .ok b
        ∧ b.build = Registry.standard :=
  ⟨_, rfl, rfl⟩

end BlockScript
