import BlockScript.Proofs.Recognition
import BlockScript.Proofs.Skipping

/-
  This file shows that the reader of a value never leaves the
  block that it starts in. It takes tokens from the front,
  and no closing brace but that of a list it has opened
  itself. A token that it blames is the last one it has taken
  or the first one it has left.

  Key definitions include:
    * `Cursor.Inside`
    * `Confined`

  Key theorems include:
    * `Cursor.Inside.append`
    * `Confined.after`
    * `ValueType.confined_readItems`
    * `ValueType.read_stays_inside`
-/

namespace BlockScript

------------------------------------------------------------
-- Tokens inside a Block
------------------------------------------------------------

namespace Cursor

/-
  Tokens that do not lead out of a block whose nesting is
  `floor`. At no time is the nesting less, and no closing
  brace comes where it is not more. The second says more at
  the top, where the nesting cannot be less.
-/
structure Inside
    (floor depth : Nat)
    (ts : List Token) : Prop where
  above : ∀ front, front <+: ts → floor ≤ depthOver depth front
  braces :
    ∀ front r back,
      ts = front ++ r :: back →
        r.kind = .rBrace → floor < depthOver depth front

namespace Inside

variable {floor depth : Nat}
variable {t : Token}
variable {ts us : List Token}

theorem nil
    (hFloor : floor ≤ depth) :
    Inside floor depth [] where
  above front hFront := by
    rw [List.prefix_nil.mp hFront]
    exact hFloor
  braces := by simp

/- Tokens stay inside one by one. -/
theorem cons_iff :
    Inside floor depth (t :: ts)
      ↔ floor ≤ depth
          ∧ (t.kind = .rBrace → floor < depth)
          ∧ Inside floor (depthAfter depth t.kind) ts := by
  constructor
  · intro hInside
    refine ⟨hInside.above [] List.nil_prefix,
      hInside.braces [] t ts rfl, ?_, ?_⟩
    · intro front hFront
      exact hInside.above (t :: front)
        (List.cons_prefix_cons.mpr ⟨rfl, hFront⟩)
    · intro front r back hTokens
      exact hInside.braces (t :: front) r back
        (congrArg (List.cons t) hTokens)
  · rintro ⟨hFloor, hBrace, hRest⟩
    constructor
    · intro front hFront
      rcases List.prefix_cons_iff.mp hFront with
        rfl | ⟨more, rfl, hMore⟩
      · exact hFloor
      · exact hRest.above more hMore
    · intro front r back hTokens hRight
      rcases List.cons_eq_append_iff.mp hTokens with
        ⟨rfl, hFirst⟩ | ⟨more, rfl, hMore⟩
      · rw [List.cons.injEq] at hFirst
        exact hBrace (hFirst.1 ▸ hRight)
      · exact hRest.braces more r back hMore hRight

/- Tokens inside may come after others. -/
theorem append
    (hFirst : Inside floor depth ts)
    (hRest : Inside floor (depthOver depth ts) us) :
    Inside floor depth (ts ++ us) := by
  induction ts generalizing depth with
  | nil => exact hRest
  | cons t ts ih =>
      rcases cons_iff.mp hFirst with ⟨hFloor, hBrace, hMore⟩
      exact cons_iff.mpr ⟨hFloor, hBrace, ih hMore hRest⟩

/- Any token but a closing brace stays inside. -/
theorem singleton
    (hFloor : floor ≤ depth)
    (hBrace : t.kind ≠ .rBrace) :
    Inside floor depth [t] := by
  have hAfter : floor ≤ depthAfter depth t.kind := by
    cases hKind : t.kind with
    | rBrace => exact absurd hKind hBrace
    | lBrace => exact Nat.le_succ_of_le hFloor
    | _ => exact hFloor
  exact cons_iff.mpr
    ⟨hFloor, fun hRight => absurd hRight hBrace, .nil hAfter⟩

/- The brace that closes a list leads back into the block. -/
theorem brace
    (hFloor : floor < depth)
    (hRight : t.kind = .rBrace) :
    Inside floor depth [t] := by
  have hAfter : floor ≤ depthAfter depth t.kind := by
    rw [hRight, depthAfter]
    omega
  exact cons_iff.mpr
    ⟨Nat.le_of_lt hFloor, fun _ => hFloor, .nil hAfter⟩

end Inside
end Cursor

------------------------------------------------------------
-- Confined Readings
------------------------------------------------------------

/-
  A reading from `c` that stays in the block whose nesting is
  `floor`. What it has read well ends at this nesting. Where
  something is wrong, it has come two levels deeper at most,
  and blames the last token taken or the first one left. At
  the end of input it has taken everything.
-/
inductive Confined
    {α : Type}
    (floor : Nat)
    (c : Cursor) :
    Reading α → Prop where
  | ok
      {taken : List Token}
      {a : α}
      {d : Cursor}
      (hMoves : c.Moves taken d)
      (hInside : Cursor.Inside floor c.depth taken)
      (hDepth : d.depth = floor) :
      Confined floor c (.ok a, d)
  | malformed
      {taken : List Token}
      {t : Token}
      {cause : Malformation}
      {d : Cursor}
      (hMoves : c.Moves taken d)
      (hInside : Cursor.Inside floor c.depth taken)
      (hDepth : floor ≤ d.depth ∧ d.depth ≤ floor + 2)
      (hBlamed :
        taken.getLast? = some t ∨ d.tokens.head? = some t) :
      Confined floor c (.error (.blame t cause), d)
  | eof
      {d : Cursor}
      (hMoves : c.Moves c.tokens d)
      (hInside : Cursor.Inside floor c.depth c.tokens)
      (hEnd : d.tokens = []) :
      Confined floor c (.error .unexpectedEof, d)

namespace Confined

variable {α : Type}
variable {floor : Nat}
variable {c d : Cursor}

/- A reading may go on after tokens inside the block. -/
theorem after
    {ts : List Token}
    {x : Reading α}
    (hMoves : c.Moves ts d)
    (hInside : Cursor.Inside floor c.depth ts)
    (hConfined : Confined floor d x) :
    Confined floor c x := by
  have hNesting := hMoves.takes.depthOver_eq
  cases hConfined with
  | ok hRest hMore hDepth =>
      rw [hNesting] at hMore
      exact .ok (hMoves.trans hRest) (hInside.append hMore)
        hDepth
  | malformed hRest hMore hDepth hBlamed =>
      rw [hNesting] at hMore
      refine .malformed (hMoves.trans hRest)
        (hInside.append hMore) hDepth (hBlamed.imp_left ?_)
      intro hLast
      rw [List.getLast?_append, hLast]
      rfl
  | eof hRest hMore hEnd =>
      rw [hNesting] at hMore
      have hAll := hMoves.trans hRest
      have hWhole := hInside.append hMore
      rw [← hMoves.takes.tokens] at hAll hWhole
      exact .eof hAll hWhole hEnd

/- What is made of a value does not matter. -/
theorem map
    {β : Type}
    {x : Reading α}
    (f : α → β)
    (hConfined : Confined floor c x) :
    Confined floor c (x.1.map f, x.2) := by
  cases hConfined with
  | ok hMoves hInside hDepth => exact .ok hMoves hInside hDepth
  | malformed hMoves hInside hDepth hBlamed =>
      exact .malformed hMoves hInside hDepth hBlamed
  | eof hMoves hInside hEnd => exact .eof hMoves hInside hEnd

/- Without tokens a reading ends. -/
theorem ended
    (hFloor : floor ≤ c.depth)
    (hEnd : c.tokens = []) :
    @Confined α floor c (.error .unexpectedEof, c.peek.2) := by
  have hMoves := c.moves_peek
  have hNone := Cursor.Inside.nil hFloor
  rw [← hEnd] at hMoves hNone
  exact .eof hMoves hNone (by rw [Cursor.tokens_peek, hEnd])

/- A token that is left where it is may be blamed. -/
theorem refused
    {t : Token}
    {ts : List Token}
    {cause : Malformation}
    (hTokens : c.tokens = t :: ts) :
    @Confined α c.depth c
      (.error (.blame t cause), c.peek.2) := by
  refine .malformed c.moves_peek (.nil (Nat.le_refl _)) ?_
    (.inr ?_)
  · rw [Cursor.depth_peek]
    omega
  · rw [Cursor.tokens_peek, hTokens]
    rfl

end Confined

------------------------------------------------------------
-- Values
------------------------------------------------------------

/- One token is taken if it could be a value, and only then. -/
theorem ScalarType.confined_read
    (type : ScalarType)
    (key : String)
    (c : Cursor) :
    Confined c.depth c (type.read key c) := by
  rcases hTokens : c.tokens with _ | ⟨t, ts⟩
  · rw [read, Cursor.peek_of_tokens_nil hTokens]
    exact .ended (Nat.le_refl _) hTokens
  · rcases Cursor.moves_next hTokens with ⟨d, hNext, hMoves⟩
    rw [read, Cursor.peek_of_tokens hTokens]
    simp only [Cursor.next_peek, hNext]
    by_cases hScalar : t.kind.isScalar = true
    · have hBrace : t.kind ≠ .rBrace := by
        intro hKind
        simp [hKind, TokenKind.isScalar] at hScalar
      have hInside :
          Cursor.Inside c.depth c.depth [t] :=
        .singleton (Nat.le_refl _) hBrace
      have hDepth : d.depth = c.depth := by
        rw [hMoves.takes.depthOver_eq]
        exact Cursor.depthAfter_of_isScalar _ hScalar
      rw [if_pos hScalar]
      rcases type.convert? t.text with _ | v
      · exact .malformed hMoves hInside (by omega) (.inl rfl)
      · exact .ok hMoves hInside hDepth
    · rw [if_neg hScalar]
      exact .refused hTokens

namespace ValueType

/-
  Items are read one level deeper than their list stands. The
  induction is on the tokens left; an item does not change the
  nesting, and a brace that opens yet another level is taken
  and blamed.
-/
theorem confined_readItems
    {floor : Nat}
    (key : String)
    (seen : List String)
    (c : Cursor)
    (hDepth : c.depth = floor + 1) :
    Confined floor c (readItems key seen c) := by
  generalize hTokens : c.tokens = ts
  induction ts generalizing seen c with
  | nil =>
      rw [readItems_eq, Cursor.next_of_tokens_nil hTokens]
      exact .ended (by omega) hTokens
  | cons t ts ih =>
      rcases Cursor.moves_next hTokens with ⟨d, hNext, hMoves⟩
      have hNesting : d.depth = Cursor.depthAfter c.depth t.kind :=
        hMoves.takes.depthOver_eq
      rw [readItems_eq, hNext]
      by_cases hRight : t.kind = .rBrace
      · simp only [if_pos hRight]
        refine .ok hMoves (.brace (by omega) hRight) ?_
        rw [hNesting, hRight, hDepth]
        rfl
      · have hInside : Cursor.Inside floor c.depth [t] :=
          .singleton (by omega) hRight
        by_cases hScalar : t.kind.isScalar = true
        · simp only [if_neg hRight, if_pos hScalar]
          rw [Cursor.depthAfter_of_isScalar _ hScalar] at hNesting
          have hRest :=
            ih (t.text :: seen) d (hNesting.trans hDepth)
              (hMoves.tokens_eq hTokens)
          exact hRest.after hMoves hInside
        · simp only [if_neg hRight, if_neg hScalar]
          refine .malformed hMoves hInside ?_ (.inl rfl)
          rw [hNesting, hDepth]
          cases t.kind <;> simp only [Cursor.depthAfter] <;>
            omega

theorem confined_readList
    (key : String)
    (c : Cursor) :
    Confined c.depth c (readList key c) := by
  rcases hTokens : c.tokens with _ | ⟨t, ts⟩
  · rw [readList, Cursor.peek_of_tokens_nil hTokens]
    exact .ended (Nat.le_refl _) hTokens
  · rcases Cursor.moves_next hTokens with ⟨d, hNext, hMoves⟩
    rw [readList, Cursor.peek_of_tokens hTokens]
    simp only [Cursor.next_peek, hNext]
    by_cases hLeft : t.kind = .lBrace
    · have hDeeper : d.depth = c.depth + 1 := by
        rw [hMoves.takes.depthOver_eq, Cursor.depthOver_cons,
          hLeft]
        rfl
      have hInside : Cursor.Inside c.depth c.depth [t] :=
        .singleton (Nat.le_refl _) (by simp [hLeft])
      rw [if_pos hLeft]
      exact (confined_readItems key [] d hDeeper).after hMoves
        hInside
    · rw [if_neg hLeft]
      exact .refused hTokens

mutual

/- Values of every type are read inside the block. -/
theorem confined_read
    (type : ValueType)
    (key : String)
    (c : Cursor) :
    Confined c.depth c (type.read key c) := by
  cases type with
  | scalar type =>
      simp only [read]
      exact type.confined_read key c
  | list =>
      simp only [read]
      exact confined_readList key c
  | record types =>
      have hWhole := (confined_readParts types key c).map Value.record
      simp only [read]
      generalize readParts types key c = x at hWhole ⊢
      rcases x with ⟨_ | vs, d⟩
      · exact hWhole
      · exact hWhole

theorem confined_readParts
    (types : List ValueType)
    (key : String)
    (c : Cursor) :
    Confined c.depth c (readParts types key c) := by
  cases types with
  | nil =>
      simp only [readParts]
      exact .ok (.refl c) (.nil (Nat.le_refl _)) rfl
  | cons type types =>
      have hFirst := confined_read type key c
      simp only [readParts]
      rcases hRead : type.read key c with ⟨e | v, d⟩
      · rw [hRead] at hFirst
        exact hFirst.map (fun v => [v])
      · rw [hRead] at hFirst
        cases hFirst with
        | ok hMoves hInside hDepth =>
            have hRest := confined_readParts types key d
            rw [hDepth] at hRest
            have hWhole := (hRest.after hMoves hInside).map (v :: ·)
            simp only
            generalize readParts types key d = x at hWhole ⊢
            rcases x with ⟨_ | vs, e⟩
            · exact hWhole
            · exact hWhole

end

/-
  Whatever comes, reading a value takes tokens from the front
  that stay inside the block. A value leaves the nesting as it
  was. Where something is wrong, at most two levels are open,
  and the token to blame is known and is at hand: it is the
  last one taken or the next one. Input has ended only where
  all of it was taken.
-/
theorem read_stays_inside
    (type : ValueType)
    (key : String)
    (c : Cursor) :
    ∃ taken,
      c.Moves taken (type.read key c).2
        ∧ Cursor.Inside c.depth c.depth taken
        ∧ match type.read key c with
          | (.ok _, d) => d.depth = c.depth
          | (.error (.malformed _ blamed), d) =>
              (c.depth ≤ d.depth ∧ d.depth ≤ c.depth + 2)
                ∧ ∃ t,
                    blamed = some t
                      ∧ (taken.getLast? = some t
                          ∨ d.tokens.head? = some t)
          | (.error .unexpectedEof, d) =>
              taken = c.tokens ∧ d.tokens = [] := by
  have hConfined := type.confined_read key c
  generalize type.read key c = x at hConfined ⊢
  cases hConfined with
  | ok hMoves hInside hDepth =>
      exact ⟨_, hMoves, hInside, hDepth⟩
  | malformed hMoves hInside hDepth hBlamed =>
      exact ⟨_, hMoves, hInside, hDepth, _, rfl, hBlamed⟩
  | eof hMoves hInside hEnd =>
      exact ⟨_, hMoves, hInside, rfl, hEnd⟩

/- A list in a list is blamed with both braces open. -/
example :
    let c := Cursor.ofSource "1 \x7b a \x7b b \x7d"
    let x := (record [.scalar .int, .list]).read "k" c
    x.2.depth = 2 ∧ x.2.tokens.map Token.text = ["b", "\x7d"] := by
  decide +kernel

end ValueType
end BlockScript
