import BlockScript.Proofs.Problems
import BlockScript.Script

/-
  This file defines when two cursors run in step, and shows
  that the operations of the cursor keep them in step.

  Two runs may differ in where their tokens stand, in what
  was reported before, and in where input ends: the left run
  may reach its end while the right one goes on. A run that
  then reports the end of input is lost, and nothing is said
  about it any more.

  Key definitions include:
    * `Matching`
    * `Ending`
    * `Simulation`
    * `Simulation.Peeks`
    * `Simulation.After`

  Key theorems include:
    * `Simulation.peeks`
    * `Simulation.skipToClose`
    * `Simulation.eatBrace`
-/

namespace BlockScript

------------------------------------------------------------
-- Runs in Step
------------------------------------------------------------

/-
  What two runs see or take at the same time: related tokens,
  the end of input on both sides, or the end on the left.
-/
inductive InStep
    (token : Token → Token → Prop)
    (cursor ended : Cursor → Cursor → Prop) :
    Option Token × Cursor → Option Token × Cursor → Prop where
  | both
      {t t' : Token}
      {c c' : Cursor}
      (hToken : token t t')
      (hCursor : cursor c c') :
      InStep token cursor ended (some t, c) (some t', c')
  | neither
      {c c' : Cursor}
      (hCursor : cursor c c') :
      InStep token cursor ended (none, c) (none, c')
  | left
      {c c' : Cursor}
      {found : Option Token}
      (hEnded : ended c c') :
      InStep token cursor ended (none, c) (found, c')

/- What is seen on the right is what was made of the left. -/
theorem Cursor.peeked_map
    {f : Token → Token}
    {c c' : Cursor}
    (hPeeked : c'.peeked = c.peeked.map f) :
    Option.Rel (fun t t' => t' = f t) c.peeked c'.peeked := by
  rw [hPeeked]
  cases c.peeked with
  | none => exact .none
  | some t => exact .some rfl

namespace InStep

variable {token : Token → Token → Prop}
variable {cursor ended : Cursor → Cursor → Prop}
variable {c c' : Cursor}

/-
  Runs that pull in step look ahead in step, if a token that
  was pulled may be kept.
-/
theorem peek
    (hCursor : cursor c c')
    (hPeeked : Option.Rel token c.peeked c'.peeked)
    (hPull :
      InStep token cursor (fun _ _ => False) c.pull c'.pull)
    (hKeep :
      ∀ {d d' : Cursor} {t t' : Token},
        cursor d d' →
          token t t' →
            cursor { d with peeked := some t }
              { d' with peeked := some t' }) :
    InStep token cursor ended c.peek c'.peek := by
  rcases hLeft : c.peeked with _ | t <;>
    rcases hRight : c'.peeked with _ | t' <;>
    rw [hLeft, hRight] at hPeeked
  · rcases hPullLeft : c.pull with ⟨found, d⟩
    rcases hPullRight : c'.pull with ⟨found', d'⟩
    have hNone := Cursor.peeked_of_pull hLeft hPullLeft
    have hNone' := Cursor.peeked_of_pull hRight hPullRight
    rw [Cursor.peek_of_pull hLeft hPullLeft,
      Cursor.peek_of_pull hRight hPullRight]
    rw [hPullLeft, hPullRight] at hPull
    cases hPull with
    | both hToken hCursor =>
        exact .both hToken (hKeep hCursor hToken)
    | neither hCursor =>
        rw [hNone, hNone']
        exact .neither hCursor
    | left hEnded => exact hEnded.elim
  · cases hPeeked
  · cases hPeeked
  · rw [Cursor.peek_of_peeked hLeft,
      Cursor.peek_of_peeked hRight]
    cases hPeeked with
    | some hToken => exact .both hToken hCursor

/- Runs that pull in step take tokens in step. -/
theorem next
    (hCursor : cursor c c')
    (hPeeked : Option.Rel token c.peeked c'.peeked)
    (hPull :
      InStep token cursor (fun _ _ => False) c.pull c'.pull)
    (hTake :
      ∀ {d d' : Cursor} {t t' : Token},
        cursor d d' →
          token t t' →
            cursor
              (Cursor.consume { d with peeked := none } t)
              (Cursor.consume { d' with peeked := none } t')) :
    InStep token cursor ended c.next c'.next := by
  rcases hLeft : c.peeked with _ | t <;>
    rcases hRight : c'.peeked with _ | t' <;>
    rw [hLeft, hRight] at hPeeked
  · rcases hPullLeft : c.pull with ⟨found, d⟩
    rcases hPullRight : c'.pull with ⟨found', d'⟩
    have hNone := Cursor.peeked_of_pull hLeft hPullLeft
    have hNone' := Cursor.peeked_of_pull hRight hPullRight
    rw [Cursor.next_of_pull hLeft hPullLeft,
      Cursor.next_of_pull hRight hPullRight]
    rw [hPullLeft, hPullRight] at hPull
    cases hPull with
    | both hToken hCursor =>
        have hTaken := hTake hCursor hToken
        rw [hNone, hNone'] at hTaken
        exact .both hToken hTaken
    | neither hCursor => exact .neither hCursor
    | left hEnded => exact hEnded.elim
  · cases hPeeked
  · cases hPeeked
  · simp only [Cursor.next, hLeft, hRight]
    cases hPeeked with
    | some hToken => exact .both hToken (hTake hCursor hToken)

end InStep

/-
  A relation between tokens that say the same, with one
  between the byte offsets where they stand.
-/
structure Matching where
  token : Token → Token → Prop
  offset : Nat → Nat → Prop
  kind_eq :
    ∀ {t t' : Token}, token t t' → t'.kind = t.kind
  text_eq :
    ∀ {t t' : Token}, token t t' → t'.text = t.text
  start :
    ∀ {t t' : Token},
      token t t' → offset t.span.start t'.span.start

/- Tokens that also stand in the same place. -/
def Matching.same : Matching where
  token := Eq
  offset := Eq
  kind_eq h := by rw [h]
  text_eq h := by rw [h]
  start h := by rw [h]

/-
  How a left run may end before the right one does.

  `ended` holds once the left run has looked at its end and
  the right one at what stands there instead. `lost` holds of
  a left run that has reported the end of its input.
-/
structure Ending where
  ended : Cursor → Cursor → Prop
  lost : Cursor → Prop
  ended_next :
    ∀ {c c' : Cursor}, ended c c' → c.next.1 = none
  lost_of_ended :
    ∀ {c c' : Cursor} (d : Diagnostic),
      ended c c' → lost (c.reportAtEnd d)
  lost_mono :
    ∀ {c d : Cursor}, c.Reaches d → lost c → lost d

/- Both runs end together. -/
def Ending.together : Ending where
  ended _ _ := False
  lost _ := False
  ended_next h := h.elim
  lost_of_ended _ h := h.elim
  lost_mono _ h := h

/-
  A relation between cursors that their operations keep. Runs
  report nothing about the text by themselves.
-/
structure Simulation extends Matching, Ending where
  cursor : Cursor → Cursor → Prop
  depth_eq :
    ∀ {c c' : Cursor}, cursor c c' → c'.depth = c.depth
  stop :
    ∀ {c c' : Cursor},
      cursor c c' → offset c.lastSpan.stop c'.lastSpan.stop
  peek :
    ∀ {c c' : Cursor},
      cursor c c' → InStep token cursor ended c.peek c'.peek
  next :
    ∀ {c c' : Cursor},
      cursor c c' →
        InStep token cursor
          (fun d _ => ∀ x, lost (d.reportAtEnd x))
          c.next c'.next
  reportAt :
    ∀ {c c' : Cursor} {t t' : Token} (d : Diagnostic),
      d.kind.isLexical = false →
        cursor c c' →
          token t t' →
            cursor (c.reportAt d t) (c'.reportAt d t')
  reportAtEnd :
    ∀ {c c' : Cursor} (d : Diagnostic),
      d.kind.isLexical = false →
        cursor c c' →
          cursor (c.reportAtEnd d) (c'.reportAtEnd d)

namespace Simulation

variable {S : Simulation}
variable {c c' : Cursor}

------------------------------------------------------------
-- Looking Ahead
------------------------------------------------------------

/-
  What two runs see, where a token seen may also be taken on
  both sides.
-/
inductive Peeks (S : Simulation) :
    Option Token × Cursor → Option Token × Cursor → Prop where
  | both
      {t t' : Token}
      {c c' : Cursor}
      (hToken : S.token t t')
      (hCursor : S.cursor c c')
      (hNext : S.cursor c.next.2 c'.next.2) :
      Peeks S (some t, c) (some t', c')
  | neither
      {c c' : Cursor}
      (hCursor : S.cursor c c') :
      Peeks S (none, c) (none, c')
  | left
      {c c' : Cursor}
      {found : Option Token}
      (hEnded : S.ended c c') :
      Peeks S (none, c) (found, c')

/- A token that stands ready is taken on both sides. -/
theorem next_of_peeked
    {t : Token}
    (hCursor : S.cursor c c')
    (hPeeked : c.peeked = some t) :
    S.cursor c.next.2 c'.next.2 := by
  have hFirst := Cursor.next_of_peeked hPeeked
  have hNext := S.next hCursor
  generalize c.next = p at hFirst hNext ⊢
  generalize c'.next = p' at hNext ⊢
  cases hNext with
  | both _ hCursor => exact hCursor
  | neither => simp at hFirst
  | left => simp at hFirst

theorem peeks
    (hCursor : S.cursor c c') :
    S.Peeks c.peek c'.peek := by
  have hPeek := S.peek hCursor
  have hPeeked := Cursor.peek_peeked c
  generalize c.peek = p at hPeek hPeeked ⊢
  generalize c'.peek = p' at hPeek ⊢
  cases hPeek with
  | both hToken hCursor =>
      exact .both hToken hCursor
        (next_of_peeked hCursor hPeeked)
  | neither hCursor => exact .neither hCursor
  | left hEnded => exact .left hEnded

/- Related tokens are described in the same words. -/
theorem describe_eq
    {t t' : Token}
    (hToken : S.token t t') :
    t'.describe = t.describe := by
  simp only [Token.describe, S.kind_eq hToken,
    S.text_eq hToken]

theorem isWord_eq
    {t t' : Token}
    (hToken : S.token t t') :
    t'.isWord = t.isWord := by
  simp only [Token.isWord, S.kind_eq hToken]

------------------------------------------------------------
-- Skipping
------------------------------------------------------------

/-
  What became of two runs that skipped: both reached the end
  of a group, both met the end of input, or the left one did.
-/
inductive Skips (S : Simulation) :
    Bool × Cursor → Bool × Cursor → Prop where
  | both
      {b : Bool}
      {c c' : Cursor}
      (hCursor : S.cursor c c') :
      Skips S (b, c) (b, c')
  | left
      {c : Cursor}
      {x' : Bool × Cursor}
      (hLost : ∀ d, S.lost (c.reportAtEnd d)) :
      Skips S (false, c) x'

theorem skipToClose
    (bodyDepth : Nat)
    (hCursor : S.cursor c c') :
    S.Skips (c.skipToClose bodyDepth)
      (c'.skipToClose bodyDepth) := by
  fun_induction Cursor.skipToClose c bodyDepth
    generalizing c' with
  | case1 c hClosed =>
      rw [← S.depth_eq hCursor] at hClosed
      rw [Cursor.skipToClose_of_closed hClosed]
      exact .both hCursor
  | case2 c hOpen d hNext =>
      have hStep := S.next hCursor
      rw [← S.depth_eq hCursor] at hOpen
      rw [hNext] at hStep
      rw [Cursor.skipToClose_of_open (by omega) (by omega)]
      generalize c'.next = p' at hStep ⊢
      cases hStep with
      | neither hCursor => exact .both hCursor
      | left hLost => exact .left hLost
  | case3 c hOpen t d hNext ih =>
      have hStep := S.next hCursor
      rw [← S.depth_eq hCursor] at hOpen
      rw [hNext] at hStep
      rw [Cursor.skipToClose_of_open (c := c')
        (by omega) (by omega)]
      generalize c'.next = p' at hStep ⊢
      cases hStep with
      | both hToken hCursor => exact ih hCursor

------------------------------------------------------------
-- After Passing Over
------------------------------------------------------------

/-
  Where two runs may stand after something was passed over.
-/
inductive After (S : Simulation) (c c' : Cursor) : Prop where
  | inStep (hCursor : S.cursor c c')
  | ended (hEnded : S.ended c c')
  | lost (hLost : S.lost c)

/-
  What stands on the right where the left run ends is a word,
  and looking at it again changes nothing.
-/
def EndsAtWords (S : Simulation) : Prop :=
  ∀ c c' : Cursor,
    S.ended c c' →
      c'.peek.2 = c' ∧
        ∀ t, c'.peek.1 = some t → t.kind = .ident

/-
  What two runs did with an opening brace.
-/
inductive Eats (S : Simulation) :
    Option Token × Cursor → Option Token × Cursor → Prop where
  | both
      {t t' : Token}
      {c c' : Cursor}
      (hPositive : 0 < c.depth)
      (hCursor : S.cursor c c') :
      Eats S (some t, c) (some t', c')
  | neither
      {c c' : Cursor}
      (hCursor : S.cursor c c') :
      Eats S (none, c) (none, c')
  | left
      {c c' : Cursor}
      (hPeek : c.peek = (none, c))
      (hEnded : S.ended c c') :
      Eats S (none, c) (none, c')

/- A brace that is taken opens a group. -/
theorem depth_pos_of_brace
    {t : Token}
    (hPeeked : c.peeked = some t)
    (hKind : t.kind = .lBrace) :
    0 < c.next.2.depth := by
  simp [Cursor.next, hPeeked, Cursor.consume,
    Cursor.depthAfter, hKind]

theorem eatBrace
    (hEnds : S.EndsAtWords)
    (hCursor : S.cursor c c') :
    S.Eats (c.eat .lBrace) (c'.eat .lBrace) := by
  have hPeeks := peeks hCursor
  have hPeeked := Cursor.peek_peeked c
  have hAgain := Cursor.peek_peek c
  have hAgain' := Cursor.peek_peek c'
  rw [Cursor.eat_eq, Cursor.eat_eq]
  generalize c.peek = p at hPeeks hPeeked hAgain ⊢
  generalize c'.peek = p' at hPeeks hAgain' ⊢
  cases hPeeks with
  | both hToken hCursor hNext =>
      rename_i t t' d d'
      simp only [Option.map_some, Option.some.injEq,
        S.kind_eq hToken]
      split
      · rename_i hKind
        have hSome := Cursor.next_of_peeked hPeeked
        have hPositive := depth_pos_of_brace hPeeked hKind
        have hStep := S.next hCursor
        generalize d.next = q at hSome hPositive hStep ⊢
        generalize d'.next = q' at hStep ⊢
        cases hStep with
        | both _ hCursor => exact .both hPositive hCursor
        | neither => simp at hSome
        | left => simp at hSome
      · exact .neither hCursor
  | neither hCursor => exact .neither hCursor
  | left hEnded =>
      rename_i d d' found
      have hFound : found.map Token.kind ≠ some .lBrace := by
        intro hBrace
        obtain ⟨t, rfl, hKind⟩ := Option.map_eq_some_iff.mp hBrace
        have hWord := (hEnds _ _ hEnded).2 t (by rw [hAgain'])
        simp [hWord] at hKind
      rw [if_neg hFound]
      exact .left hAgain hEnded

end Simulation
end BlockScript
