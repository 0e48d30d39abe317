import BlockScript.Proofs.Taking

/-
  This file shows how far a cursor skips. To leave a block it
  takes the fewest tokens that lead out of it, and a group in
  braces it takes up to the partner of its first brace.

  Key definitions include:
    * `IsShortestPrefix`
    * `Cursor.depthOver`
    * `Cursor.LeavesBlock`
    * `Cursor.PassesGroup`

  Key theorems include:
    * `splitClose_shortest`
    * `splitClose_none`
    * `Cursor.leavesBlock_skipToClose`
    * `Cursor.passesGroup_skipGroup`
    * `Cursor.skips_shortest`
-/

namespace BlockScript

------------------------------------------------------------
-- Nesting
------------------------------------------------------------

namespace Cursor

/- The nesting after some tokens. -/
def depthOver
    (depth : Nat)
    (ts : List Token) : Nat :=
  ts.foldl (fun d t => depthAfter d t.kind) depth

@[simp]
theorem depthOver_nil
    (depth : Nat) :
    depthOver depth [] = depth :=
  rfl

@[simp]
theorem depthOver_cons
    (depth : Nat)
    (t : Token)
    (ts : List Token) :
    depthOver depth (t :: ts)
      = depthOver (depthAfter depth t.kind) ts :=
  rfl

@[simp]
theorem depthOver_append
    (depth : Nat)
    (ts us : List Token) :
    depthOver depth (ts ++ us)
      = depthOver (depthOver depth ts) us :=
  List.foldl_append

/- The nesting of a cursor follows from what it takes. -/
theorem Takes.depthOver_eq
    {c d : Cursor}
    {taken : List Token}
    {reported : List Diagnostic}
    (hTakes : c.Takes taken reported d) :
    d.depth = depthOver c.depth taken :=
  hTakes.depth

/- One token leads out of one block at most. -/
theorem le_depthAfter
    (depth : Nat)
    (kind : TokenKind) :
    depth - 1 ≤ depthAfter depth kind := by
  cases kind <;> simp only [depthAfter] <;> omega

end Cursor

------------------------------------------------------------
-- The Fewest Tokens
------------------------------------------------------------

/- The fewest items in front of others for which `P` holds. -/
structure IsShortestPrefix
    {α : Type}
    (P : List α → Prop)
    (front all : List α) : Prop where
  inFront : front <+: all
  holds : P front
  least :
    ∀ other,
      other <+: all → P other → front.length ≤ other.length

section Split

open Cursor (depthOver)

variable {bodyDepth depth : Nat}
variable {ts front back : List Token}

/-
  What is split off are the fewest tokens after which the
  block is left. The induction is on the tokens; as long as
  the block is open, no tokens at all do not leave it.
-/
theorem splitClose_shortest
    (hPositive : 0 < bodyDepth)
    (hOpen : bodyDepth ≤ depth)
    (hSplit :
      splitClose bodyDepth depth ts = some (front, back)) :
    IsShortestPrefix
      (fun ts => depthOver depth ts = bodyDepth - 1) front ts := by
  induction ts generalizing depth front with
  | nil => simp [splitClose] at hSplit
  | cons t ts ih =>
      have hNone : depthOver depth [] ≠ bodyDepth - 1 := by
        rw [Cursor.depthOver_nil]
        omega
      by_cases hAfter :
          bodyDepth ≤ Cursor.depthAfter depth t.kind
      · rcases splitClose_cons hAfter hSplit with
          ⟨first, rfl, hRest⟩
        have hShortest := ih hAfter hRest
        refine ⟨?_, hShortest.holds, ?_⟩
        · rw [List.cons_prefix_cons]
          exact ⟨rfl, hShortest.inFront⟩
        · intro other hOther hLeaves
          rcases List.prefix_cons_iff.mp hOther with
            rfl | ⟨more, rfl, hMore⟩
          · exact absurd hLeaves hNone
          · have hLess := hShortest.least more hMore hLeaves
            exact Nat.succ_le_succ hLess
      · have hLess := Nat.lt_of_not_le hAfter
        have hStep := Cursor.le_depthAfter depth t.kind
        simp only [splitClose, if_pos hLess, Option.some.injEq,
          Prod.mk.injEq] at hSplit
        rcases hSplit with ⟨rfl, -⟩
        refine ⟨⟨ts, rfl⟩, ?_, ?_⟩
        · rw [Cursor.depthOver_cons, Cursor.depthOver_nil]
          omega
        · intro other _ hLeaves
          refine List.length_pos_iff.mpr ?_
          rintro rfl
          exact hNone hLeaves

/- Where nothing is split off, no tokens leave the block. -/
theorem splitClose_none
    (hPositive : 0 < bodyDepth)
    (hOpen : bodyDepth ≤ depth)
    (hSplit : splitClose bodyDepth depth ts = none) :
    ∀ other,
      other <+: ts → depthOver depth other ≠ bodyDepth - 1 := by
  induction ts generalizing depth with
  | nil =>
      intro other hOther
      rw [List.prefix_nil.mp hOther, Cursor.depthOver_nil]
      omega
  | cons t ts ih =>
      simp only [splitClose] at hSplit
      split at hSplit
      · simp at hSplit
      · rename_i hAfter
        intro other hOther
        rcases List.prefix_cons_iff.mp hOther with
          rfl | ⟨more, rfl, hMore⟩
        · rw [Cursor.depthOver_nil]
          omega
        · exact ih (Nat.le_of_not_lt hAfter)
            (Option.map_eq_none_iff.mp hSplit) more hMore

end Split

/-
  No brace among these tokens is the partner of one that was
  open before them.
-/
def StaysOpen (ts : List Token) : Prop :=
  ∀ front r back,
    ts = front ++ r :: back →
      Balanced front → r.kind ≠ .rBrace

namespace Cursor

------------------------------------------------------------
-- Leaving a Block
------------------------------------------------------------

/-
  How a cursor leaves the block in whose body the nesting is
  `bodyDepth`. Outside of the block it stays where it is. In
  it, it takes the fewest tokens that lead out, or all if the
  block is not left before input ends.
-/
inductive LeavesBlock
    (bodyDepth : Nat)
    (c : Cursor) :
    Bool × Cursor → Prop where
  | outside
      (hOutside : bodyDepth = 0 ∨ c.depth < bodyDepth) :
      LeavesBlock bodyDepth c (true, c)
  | closed
      {front : List Token}
      {d : Cursor}
      (hPositive : 0 < bodyDepth)
      (hInside : bodyDepth ≤ c.depth)
      (hShortest :
        IsShortestPrefix
          (fun ts => depthOver c.depth ts = bodyDepth - 1)
          front c.tokens)
      (hTakes : c.Takes front [] d)
      (hDepth : d.depth = bodyDepth - 1) :
      LeavesBlock bodyDepth c (true, d)
  | unclosed
      {d : Cursor}
      (hPositive : 0 < bodyDepth)
      (hInside : bodyDepth ≤ c.depth)
      (hNone :
        ∀ front,
          front <+: c.tokens →
            depthOver c.depth front ≠ bodyDepth - 1)
      (hTakes : c.Takes c.tokens [] d)
      (hEnd : d.tokens = []) :
      LeavesBlock bodyDepth c (false, d)

theorem leavesBlock_skipToClose
    (c : Cursor)
    (bodyDepth : Nat) :
    c.LeavesBlock bodyDepth (c.skipToClose bodyDepth) := by
  by_cases hOutside : bodyDepth = 0 ∨ c.depth < bodyDepth
  · rw [skipToClose_of_closed hOutside]
    exact .outside hOutside
  · have hPositive : 0 < bodyDepth := by omega
    have hInside : bodyDepth ≤ c.depth := by omega
    rcases takes_skipToClose hPositive hInside with
      ⟨front, d, hSkip, hSplit, hTakes, -⟩
        | ⟨d, hSkip, hSplit, hTakes, hEnd⟩
    · have hShortest :=
        splitClose_shortest hPositive hInside hSplit
      rw [hSkip]
      exact .closed hPositive hInside hShortest hTakes
        (hTakes.depthOver_eq.trans hShortest.holds)
    · rw [hSkip]
      exact .unclosed hPositive hInside
        (splitClose_none hPositive hInside hSplit) hTakes hEnd

------------------------------------------------------------
-- Groups in Braces
------------------------------------------------------------

/-
  How a cursor passes over the group in braces in front of it.
  Without a group it takes nothing. It takes a group up to the
  partner of the first brace, or all tokens if there is none.
-/
inductive PassesGroup
    (c : Cursor) :
    Bool × Cursor → Prop where
  | absent
      {d : Cursor}
      (hNone : ∀ t ∈ c.tokens.head?, t.kind ≠ .lBrace)
      (hTakes : c.Takes [] [] d) :
      PassesGroup c (true, d)
  | closed
      {l r : Token}
      {inner : List Token}
      {d : Cursor}
      (hLeft : l.kind = .lBrace)
      (hInner : Balanced inner)
      (hRight : r.kind = .rBrace)
      (hTakes : c.Takes (l :: (inner ++ [r])) [] d)
      (hDepth : d.depth = c.depth) :
      PassesGroup c (true, d)
  | unclosed
      {l : Token}
      {inner : List Token}
      {d : Cursor}
      (hTokens : c.tokens = l :: inner)
      (hLeft : l.kind = .lBrace)
      (hOpen : StaysOpen inner)
      (hTakes : c.Takes c.tokens [] d)
      (hEnd : d.tokens = []) :
      PassesGroup c (false, d)

/-
  The group has to be left that the first brace opens, so it
  is one level deeper than the cursor.
-/
theorem passesGroup_skipGroup
    (c : Cursor) :
    c.PassesGroup c.skipGroup := by
  unfold skipGroup
  rcases c.eat_cases .lBrace with
    ⟨l, d, hEat, hLeft, hFirst⟩ | ⟨hEat, hNone⟩
  · have hDepth : d.depth = c.depth + 1 := by
      rw [hFirst.depthOver_eq, depthOver_cons, hLeft]
      rfl
    have hPositive : 0 < d.depth := by omega
    have hTokens := hFirst.tokens
    rw [hEat]
    simp only
    rcases takes_skipToClose hPositive (Nat.le_refl _) with
      ⟨front, e, hSkip, hSplit, hMore, -⟩
        | ⟨e, hSkip, hSplit, hMore, hEnd⟩
    · rcases splitClose_group hPositive hSplit with
        ⟨inner, r, hInner, hRight, rfl, -⟩
      have hSame : depthOver d.depth inner = d.depth :=
        hInner.depth_eq d.depth
      have hAfter : e.depth = c.depth := by
        rw [hMore.depthOver_eq, depthOver_append, hSame,
          depthOver_cons, hRight, hDepth]
        rfl
      rw [hSkip]
      exact .closed hLeft hInner hRight (hFirst.trans hMore)
        hAfter
    · have hAll := hFirst.trans hMore
      rw [← hTokens] at hAll
      rw [hSkip]
      exact .unclosed hTokens hLeft
        ((splitClose_eq_none_iff hPositive).mp hSplit) hAll hEnd
  · rw [hEat]
    exact .absent hNone c.takes_peek

/- A group is cut off by the end of input if it stays open. -/
theorem PassesGroup.eq_false_iff
    {c : Cursor}
    {x : Bool × Cursor}
    (hPasses : c.PassesGroup x) :
    x.1 = false
      ↔ ∃ l inner,
          c.tokens = l :: inner
            ∧ l.kind = .lBrace
            ∧ StaysOpen inner := by
  cases hPasses with
  | absent hNone _ =>
      refine ⟨by simp, ?_⟩
      rintro ⟨l, inner, hTokens, hLeft, -⟩
      exact absurd hLeft (hNone l (by simp [hTokens]))
  | @closed _ r front d hLeft hInner hRight hTakes _ =>
      refine ⟨by simp, ?_⟩
      rintro ⟨l, inner, hTokens, -, hOpen⟩
      have hSame := hTakes.tokens
      rw [hTokens, List.cons_append, List.cons.injEq,
        List.append_assoc] at hSame
      exact absurd hRight (hOpen front r d.tokens hSame.2 hInner)
  | unclosed hTokens hLeft hOpen _ _ =>
      exact ⟨fun _ => ⟨_, _, hTokens, hLeft, hOpen⟩, fun _ => rfl⟩

/-
  A cursor skips the fewest tokens. In a block it takes just
  those that lead out of it, whatever the nesting and whether
  a token has been looked at or not; a group in front of it is
  taken up to the partner of its brace. Only where there is no
  way out, or no partner, does it take everything.
-/
theorem skips_shortest
    (c : Cursor) :
    (∀ bodyDepth,
        c.LeavesBlock bodyDepth (c.skipToClose bodyDepth))
      ∧ c.PassesGroup c.skipGroup
      ∧ (c.skipGroup.1 = false
          ↔ ∃ l inner,
              c.tokens = l :: inner
                ∧ l.kind = .lBrace
                ∧ StaysOpen inner) :=
  ⟨c.leavesBlock_skipToClose, c.passesGroup_skipGroup,
    c.passesGroup_skipGroup.eq_false_iff⟩

/- With a token looked at, two of three open levels are left. -/
example :
    let c := { ofSource "a \x7d b \x7d c" with depth := 3 }
    (c.peek.2.skipToClose 2).1 = true
      ∧ (c.peek.2.skipToClose 2).2.tokens.map Token.text
          = ["c"] := by
  decide +kernel

end Cursor
end BlockScript
