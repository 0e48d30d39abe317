import BlockScript.Cursor

/-
  This file defines what a cursor can become when it is moved
  by its own operations only.

  Key definitions include:
    * `Cursor.Reaches`

  Key theorems include:
    * `Cursor.Reaches.trans`
    * `Cursor.Reaches.size_le`
    * `Cursor.reaches_skipToClose`
-/

namespace BlockScript
namespace Cursor

------------------------------------------------------------
-- Reachability
------------------------------------------------------------

/-
  A cursor reaches those that come from it by looking ahead,
  taking tokens and reporting, for which the end of the last
  token may be checked.
-/
inductive Reaches (c : Cursor) : Cursor → Prop where
  | refl : Reaches c c
  | peek
      {d : Cursor} :
      Reaches c d →
      Reaches c d.peek.2
  | next
      {d : Cursor} :
      Reaches c d →
      Reaches c d.next.2
  | report
      {d : Cursor}
      (x : Diagnostic) :
      Reaches c d →
      Reaches c (d.report x)
  | checkEnd
      {d : Cursor} :
      Reaches c d →
      Reaches c d.checkEnd

namespace Reaches

/- Runs of operations compose. -/
theorem trans
    {a b c : Cursor}
    (hab : Reaches a b)
    (hbc : Reaches b c) :
    Reaches a c := by
  induction hbc with
  | refl => exact hab
  | peek _ ih => exact ih.peek
  | next _ ih => exact ih.next
  | report x _ ih => exact ih.report x
  | checkEnd _ ih => exact ih.checkEnd

theorem reportAtEnd
    {c d : Cursor}
    (x : Diagnostic)
    (h : Reaches c d) :
    Reaches c (d.reportAtEnd x) :=
  h.checkEnd.report _

/- A look leads on, whatever it finds. -/
theorem of_peek
    {c d : Cursor}
    {found : Option Token}
    (hPeek : c.peek = (found, d)) :
    Reaches c d := by
  have hLook : Reaches c c.peek.2 := refl.peek
  rwa [hPeek] at hLook

theorem of_next
    {c d : Cursor}
    {found : Option Token}
    (hNext : c.next = (found, d)) :
    Reaches c d := by
  have hTaken : Reaches c c.next.2 := refl.next
  rwa [hNext] at hTaken

/- No operation adds tokens. -/
theorem size_le
    {c d : Cursor}
    (h : Reaches c d) :
    d.size ≤ c.size := by
  induction h with
  | refl => exact Nat.le_refl _
  | peek _ ih => exact Nat.le_trans (size_peek_le _) ih
  | next _ ih => exact Nat.le_trans (size_next_le _) ih
  | report x _ ih => exact ih
  | checkEnd _ ih => exact ih

end Reaches

------------------------------------------------------------
-- Operations Made of Others
------------------------------------------------------------

theorem reaches_isAt
    (c : Cursor)
    (kind : TokenKind) :
    Reaches c (c.isAt kind).2 :=
  Reaches.refl.peek

theorem reaches_eat
    (c : Cursor)
    (kind : TokenKind) :
    Reaches c (c.eat kind).2 := by
  have hAt := reaches_isAt c kind
  unfold eat
  split
  · rename_i c' h
    rw [h] at hAt
    exact hAt.next
  · rename_i c' h
    rw [h] at hAt
    exact hAt

theorem reaches_reportAt
    (c : Cursor)
    (d : Diagnostic)
    (t : Token) :
    Reaches c (c.reportAt d t) :=
  Reaches.refl.report _

theorem reaches_reportAtEnd
    (c : Cursor)
    (d : Diagnostic) :
    Reaches c (c.reportAtEnd d) :=
  Reaches.refl.reportAtEnd d

theorem reaches_reportNear
    (c : Cursor)
    (d : Diagnostic)
    (t : Option Token) :
    Reaches c (c.reportNear d t) := by
  cases t with
  | none => exact reaches_reportAtEnd c d
  | some t => exact reaches_reportAt c d t

/- Skipping only takes tokens. -/
theorem reaches_skipToClose
    (c : Cursor)
    (bodyDepth : Nat) :
    Reaches c (c.skipToClose bodyDepth).2 := by
  fun_induction skipToClose c bodyDepth with
  | case1 => exact Reaches.refl
  | case2 c _ c' h => exact .of_next h
  | case3 c _ t c' h ih => exact (Reaches.of_next h).trans ih

theorem reaches_skipGroup
    (c : Cursor) :
    Reaches c c.skipGroup.2 := by
  have hEat := reaches_eat c .lBrace
  unfold skipGroup
  split
  · rename_i c' h
    rwa [h] at hEat
  · rename_i t c' h
    rw [h] at hEat
    exact hEat.trans (reaches_skipToClose c' _)

end Cursor
end BlockScript
