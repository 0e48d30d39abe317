import BlockScript.Body.Steps
import BlockScript.Proofs.Problems

/-
  This file says which bodies read only through the cursor.
  Such a body sees the header of its block, the tokens that
  it looks at or takes, the nesting and the place of the last
  token, and nothing else: not the text, and not what has
  been reported. It may also report, though not about the
  text, and leave another header.

  Key definitions include:
    * `Move`
    * `Plan`
    * `Plan.Runs`
    * `Body.ReadsByCursor`

  Key theorems include:
    * `Plan.Runs.unique`
    * `Steps.follows_plan`
-/

namespace BlockScript

------------------------------------------------------------
-- Plans
------------------------------------------------------------

/-
  What a body does next, where `σ` is what it remembers: it
  ends and leaves a header, or it uses the cursor and goes on
  with the answer. A report is never about the text.
-/
inductive Move (σ : Type) where
  | finish
      (header : Header)
      (result : Except BodyError (List Field))
  | peek (go : Option Token → σ)
  | next (go : Option Token → σ)
  | depth (go : Nat → σ)
  | lastSpan (go : Span → σ)
  | report
      (d : Diagnostic)
      (hKind : d.kind.isLexical = false)
      (after : σ)
  | reportAtEnd
      (d : Diagnostic)
      (hKind : d.kind.isLexical = false)
      (after : σ)

/-
  A body as a machine that makes such moves. It starts with
  the header of its block.
-/
structure Plan where
  State : Type
  start : Header → State
  move : State → Move State

namespace Plan

/-
  One move at a cursor: a header with a result, or what is
  remembered then and where the cursor stands.
-/
def step
    (p : Plan)
    (s : p.State)
    (c : Cursor) :
    Header × Except BodyError (List Field) ⊕ p.State × Cursor :=
  match p.move s with
  | .finish h result => .inl (h, result)
  | .peek go => .inr (go c.peek.1, c.peek.2)
  | .next go => .inr (go c.next.1, c.next.2)
  | .depth go => .inr (go c.depth, c)
  | .lastSpan go => .inr (go c.lastSpan, c)
  | .report d _ after => .inr (after, c.report d)
  | .reportAtEnd d _ after => .inr (after, c.reportAtEnd d)

/- What comes of a plan in the end. -/
inductive Runs (p : Plan) :
    p.State → Cursor → Header → Reading (List Field) →
      Prop where
  | finish
      {s : p.State}
      {c : Cursor}
      {h : Header}
      {result : Except BodyError (List Field)}
      (hStep : p.step s c = .inl (h, result)) :
      Runs p s c h (result, c)
  | move
      {s s' : p.State}
      {c c' : Cursor}
      {h : Header}
      {x : Reading (List Field)}
      (hStep : p.step s c = .inr (s', c'))
      (hRest : Runs p s' c' h x) :
      Runs p s c h x

/- A plan leaves no choice. -/
theorem Runs.unique
    {p : Plan}
    {s : p.State}
    {c : Cursor}
    {h h' : Header}
    {x y : Reading (List Field)}
    (hFirst : p.Runs s c h x)
    (hSecond : p.Runs s c h' y) :
    h = h' ∧ x = y := by
  induction hFirst with
  | finish hStep =>
      cases hSecond with
      | finish hStep' =>
          rw [hStep, Sum.inl.injEq, Prod.mk.injEq] at hStep'
          exact ⟨hStep'.1, by rw [hStep'.2]⟩
      | move hStep' _ => simp [hStep] at hStep'
  | move hStep _ ih =>
      cases hSecond with
      | finish hStep' => simp [hStep] at hStep'
      | move hStep' hRest =>
          rw [hStep, Sum.inr.injEq, Prod.mk.injEq] at hStep'
          rcases hStep' with ⟨rfl, rfl⟩
          exact ih hRest

end Plan

/- A grammar that reads what a plan reads. -/
def Grammar.Follows
    (g : Grammar)
    (p : Plan) : Prop :=
  ∀ (h : Header) (c : Cursor),
    p.Runs (p.start h) c (g.header h c) (g.read h c)

/-
  A body that reads only through the cursor. Tables and
  bodies without structure do so anyway.
-/
def Body.ReadsByCursor : Body → Prop
  | unstructured => True
  | table _ => True
  | custom g => ∃ p, g.Follows p

------------------------------------------------------------
-- Steps as Plans
------------------------------------------------------------

namespace Steps

/-
  Steps remember the header, how many tokens are still to be
  taken, the fields so far, last first, and the last token.
-/
def plan (steps : Steps) : Plan where
  State := Header × Nat × List Field × Option Token
  start h := (h, steps.count, [], none)
  move
    | (h, 0, fields, last) =>
        .finish h (steps.conclude fields.reverse last)
    | (h, n + 1, fields, last) =>
        .next fun
          | none => (h, 0, fields, last)
          | some t => (h, n, steps.record t ++ fields, some t)

theorem runs_read
    (steps : Steps)
    (h : Header)
    (n : Nat)
    (fields : List Field)
    (last : Option Token)
    (c : Cursor) :
    steps.plan.Runs (h, n, fields, last) c h
      (steps.read fields last c n) := by
  induction n generalizing fields last c with
  | zero => exact .finish rfl
  | succ n ih =>
      unfold read
      rcases hNext : c.next with ⟨_ | t, d⟩
      · apply Plan.Runs.move
        · simp only [plan, Plan.step, hNext]
          rfl
        · exact .finish rfl
      · apply Plan.Runs.move
        · simp only [plan, Plan.step, hNext]
          rfl
        · exact ih (steps.record t ++ fields) (some t) d

/- Steps read only through the cursor. -/
theorem follows_plan
    (steps : Steps) :
    steps.grammar.Follows steps.plan := by
  intro h c
  exact steps.runs_read h steps.count [] none c

end Steps
end BlockScript
