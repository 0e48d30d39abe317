import BlockScript.Cursor.Reaches

/-
  This file describes cursors by the tokens that they have
  not taken yet. Looking ahead leaves these as they are, and
  taking a token removes the first one.

  Key definitions include:
    * `Lexer.tokens`
    * `Cursor.tokens`

  Key theorems include:
    * `Lexer.next_of_ended`
    * `Cursor.next_fst`
    * `Cursor.next_peek`
    * `Cursor.skipToClose_of_open`
-/

namespace BlockScript

------------------------------------------------------------
-- Layout, Piece by Piece
------------------------------------------------------------

theorem splitLayout_of_none
    {text : List Char}
    (seen : List Char)
    (hPiece : layoutPiece? text = none) :
    splitLayout seen text = (seen.reverse, text) := by
  rw [splitLayout]
  split <;> simp_all

theorem splitLayout_of_some
    {text piece rest : List Char}
    (seen : List Char)
    (hPiece : layoutPiece? text = some (piece, rest)) :
    splitLayout seen text
      = splitLayout (piece.reverse ++ seen) rest := by
  rw [splitLayout]
  split <;> simp_all

------------------------------------------------------------
-- Lexers at Their End
------------------------------------------------------------

namespace Lexer

/- Without text there is no token, and nothing changes. -/
theorem next_of_rest_nil
    {l : Lexer}
    (hRest : l.rest = []) :
    l.next = (none, l) := by
  have hSplit : splitLayout [] l.rest = ([], []) := by
    rw [hRest]
    exact splitLayout_of_none [] rfl
  unfold next
  rw [hSplit]
  cases l
  simp_all

/- A lexer with no more tokens has no more text. -/
theorem rest_of_next_none
    {l l' : Lexer}
    (hNext : l.next = (none, l')) :
    l'.rest = [] := by
  unfold next at hNext
  simp only at hNext
  split at hNext
  · simp only [Prod.mk.injEq, true_and] at hNext
    rw [← hNext]
  · split at hNext
    · simp only [Prod.mk.injEq, true_and] at hNext
      rw [← hNext]
      rfl
    · simp at hNext

/- The end of the tokens is met again and again. -/
theorem next_of_ended
    {l l' : Lexer}
    (hNext : l.next = (none, l')) :
    l'.next = (none, l') :=
  next_of_rest_nil (rest_of_next_none hNext)

------------------------------------------------------------
-- Problems Not Yet Taken
------------------------------------------------------------

/- Problems from before have no part in the next token. -/
theorem next_pending
    (l : Lexer)
    (ds : List Diagnostic) :
    next { l with pending := ds ++ l.pending }
      = (l.next.1,
          { l.next.2 with pending := ds ++ l.next.2.pending }) := by
  unfold next
  simp only
  split
  · rfl
  · split
    · simp [complain]
    · unfold takeLexeme
      simp only
      split <;> simp [complain]

theorem next_drain
    (l : Lexer) :
    l.next
      = (l.drain.2.next.1,
          { l.drain.2.next.2 with
            pending := l.pending ++ l.drain.2.next.2.pending }) := by
  simpa [drain] using next_pending l.drain.2 l.pending

------------------------------------------------------------
-- Tokens to Come
------------------------------------------------------------

theorem collect_of_none
    {l l' : Lexer}
    (seen : List Token)
    (hNext : l.next = (none, l')) :
    l.collect seen = (seen.reverse, l') := by
  rw [collect]
  split <;> simp_all

theorem collect_of_some
    {l l' : Lexer}
    {t : Token}
    (seen : List Token)
    (hNext : l.next = (some t, l')) :
    l.collect seen = l'.collect (t :: seen) := by
  rw [collect]
  split <;> simp_all

/- The tokens that a lexer still gives. -/
def tokens (l : Lexer) : List Token :=
  (l.collect []).1

/- Tokens collected before stand in front. -/
theorem collect_append
    (seen before : List Token)
    (l : Lexer) :
    l.collect (seen ++ before)
      = (before.reverse ++ (l.collect seen).1,
          (l.collect seen).2) := by
  fun_induction collect seen l with
  | case1 seen l l' hNext =>
      rw [collect_of_none _ hNext]
      simp
  | case2 seen l t l' hNext ih =>
      rw [collect_of_some _ hNext]
      exact ih

theorem tokens_of_none
    {l l' : Lexer}
    (hNext : l.next = (none, l')) :
    l.tokens = [] := by
  rw [tokens, collect_of_none _ hNext]
  rfl

theorem tokens_of_some
    {l l' : Lexer}
    {t : Token}
    (hNext : l.next = (some t, l')) :
    l.tokens = t :: l'.tokens := by
  rw [tokens, collect_of_some _ hNext]
  have hSplit := collect_append [] [t] l'
  rw [List.nil_append] at hSplit
  rw [hSplit]
  rfl

/- Taking the problems leaves the tokens. -/
theorem tokens_drain
    (l : Lexer) :
    l.drain.2.tokens = l.tokens := by
  generalize hSize : l.rest.length = n
  induction n using Nat.strongRecOn generalizing l with
  | ind n ih =>
      have hDrain := next_drain l
      rcases hNext : l.drain.2.next with ⟨_ | t, l'⟩
      · rw [hNext] at hDrain
        rw [tokens_of_none hNext, tokens_of_none hDrain]
      · rw [hNext] at hDrain
        rw [tokens_of_some hNext, tokens_of_some hDrain]
        have hLt := next_length hNext
        rw [show l.drain.2.rest = l.rest from rfl, hSize] at hLt
        have hRight :=
          ih _ hLt
            { l' with pending := l.pending ++ l'.pending } rfl
        rw [← ih _ hLt l' rfl, ← hRight]
        rfl

end Lexer

namespace TokenSource

/- The tokens that a source still gives. -/
def tokens : TokenSource → List Token
  | script l => l.tokens
  | listed ts => ts
  | supplied _ rest _ => rest.map Prod.fst

@[simp]
theorem tokens_drain
    (s : TokenSource) :
    s.drain.2.tokens = s.tokens := by
  cases s with
  | script l => exact l.tokens_drain
  | listed ts => rfl
  | supplied ds rest closing => rfl

theorem next_fst
    (s : TokenSource) :
    s.next.1 = s.tokens.head? := by
  cases s with
  | script l =>
      simp only [next, tokens]
      rcases hNext : l.next with ⟨_ | t, l'⟩
      · simp [Lexer.tokens_of_none hNext]
      · simp [Lexer.tokens_of_some hNext]
  | listed ts => cases ts <;> rfl
  | supplied ds rest closing => cases rest <;> rfl

theorem tokens_next
    (s : TokenSource) :
    s.next.2.tokens = s.tokens.tail := by
  cases s with
  | script l =>
      simp only [next, tokens]
      rcases hNext : l.next with ⟨_ | t, l'⟩
      · rw [Lexer.tokens_of_none hNext,
          Lexer.tokens_of_none (Lexer.next_of_ended hNext)]
        rfl
      · rw [Lexer.tokens_of_some hNext]
        rfl
  | listed ts => cases ts <;> rfl
  | supplied ds rest closing => cases rest <;> rfl

/- At its end a source gives nothing more. -/
theorem next_of_ended
    {s : TokenSource}
    (hEnd : s.next.1 = none) :
    s.next.2.drain.2.next = (none, s.next.2.drain.2)
      ∧ s.next.2.drain.2.drain = ([], s.next.2.drain.2) := by
  cases s with
  | script l =>
      rcases hNext : l.next with ⟨_ | t, l'⟩
      · have hRest := Lexer.rest_of_next_none hNext
        have hAgain :
            l'.drain.2.next = (none, l'.drain.2) :=
          Lexer.next_of_rest_nil hRest
        simp only [next, drain, hNext]
        exact ⟨by rw [hAgain], rfl⟩
      · simp [next, hNext] at hEnd
  | listed ts =>
      cases ts with
      | nil => exact ⟨rfl, rfl⟩
      | cons t ts => simp [next] at hEnd
  | supplied ds rest closing =>
      cases rest with
      | nil => exact ⟨rfl, rfl⟩
      | cons x rest => simp [next] at hEnd

end TokenSource

------------------------------------------------------------
-- Tokens Not Yet Taken
------------------------------------------------------------

namespace Cursor

/- The tokens that have not been taken, in order. -/
def tokens (c : Cursor) : List Token :=
  c.peeked.toList ++ c.source.tokens

@[simp]
theorem tokens_report
    (c : Cursor)
    (d : Diagnostic) :
    (c.report d).tokens = c.tokens :=
  rfl

@[simp]
theorem tokens_reportAtEnd
    (c : Cursor)
    (d : Diagnostic) :
    (c.reportAtEnd d).tokens = c.tokens :=
  rfl

@[simp]
theorem pull_fst
    (c : Cursor) :
    c.pull.1 = c.source.tokens.head? :=
  c.source.next_fst

@[simp]
theorem pull_tokens
    (c : Cursor) :
    c.pull.2.source.tokens = c.source.tokens.tail := by
  simp [pull, TokenSource.tokens_next]

/- The token looked at is the first one not taken. -/
theorem peek_fst
    (c : Cursor) :
    c.peek.1 = c.tokens.head? := by
  unfold peek
  split
  · rename_i t hPeeked
    simp [tokens, hPeeked]
  · rename_i hPeeked
    simp [tokens, hPeeked]

/- Looking ahead takes nothing. -/
@[simp]
theorem tokens_peek
    (c : Cursor) :
    c.peek.2.tokens = c.tokens := by
  unfold peek
  split
  · rfl
  · rename_i hPeeked
    simp only [tokens, pull_fst, pull_tokens, hPeeked]
    cases c.source.tokens <;> rfl

/- The token taken is the first one. -/
theorem next_fst
    (c : Cursor) :
    c.next.1 = c.tokens.head? := by
  have hPull := c.pull_fst
  unfold next
  split
  · rename_i t hPeeked
    simp [tokens, hPeeked]
  · rename_i hPeeked
    split <;> rename_i hFirst <;>
      simpa [tokens, hPeeked, hFirst] using hPull

/- Taking a token leaves those after it. -/
@[simp]
theorem tokens_next
    (c : Cursor) :
    c.next.2.tokens = c.tokens.tail := by
  have hPull := c.pull_tokens
  unfold next
  split
  · rename_i t hPeeked
    simp [tokens, hPeeked, consume]
  · rename_i hPeeked
    split <;> rename_i c' hFirst <;>
      simp_all [tokens, consume, ← pull_peeked c]

------------------------------------------------------------
-- Looking Ahead
------------------------------------------------------------

/- A second look at the end of input changes nothing. -/
theorem pull_of_ended
    {c : Cursor}
    (hEnd : c.pull.1 = none) :
    c.pull.2.pull = (none, c.pull.2) := by
  obtain ⟨hNext, hDrain⟩ :=
    TokenSource.next_of_ended (s := c.source) hEnd
  rw [pull]
  simp only [pull] at *
  rw [hNext]
  simp [hDrain]

theorem peek_of_peeked
    {c : Cursor}
    {t : Token}
    (hPeeked : c.peeked = some t) :
    c.peek = (some t, c) := by
  simp [peek, hPeeked]

theorem peek_of_pull
    {c d : Cursor}
    {found : Option Token}
    (hPeeked : c.peeked = none)
    (hPull : c.pull = (found, d)) :
    c.peek = (found, { d with peeked := found }) := by
  simp [peek, hPeeked, hPull]

theorem next_of_pull
    {c d : Cursor}
    {found : Option Token}
    (hPeeked : c.peeked = none)
    (hPull : c.pull = (found, d)) :
    c.next = (found, found.elim d d.consume) := by
  cases found <;> simp [next, hPeeked, hPull]

/- A pulled cursor without a token is that of a look. -/
theorem peeked_of_pull
    {c d : Cursor}
    {found : Option Token}
    (hPeeked : c.peeked = none)
    (hPull : c.pull = (found, d)) :
    { d with peeked := none } = d := by
  have hSame := pull_peeked c
  rw [hPull, hPeeked] at hSame
  rw [← hSame]

/- Looking again shows the same. -/
@[simp]
theorem peek_peek
    (c : Cursor) :
    c.peek.2.peek = c.peek := by
  rcases hPeeked : c.peeked with _ | t
  · rcases hPull : c.pull with ⟨_ | t, d⟩
    · have hAgain := pull_of_ended (c := c) (by rw [hPull])
      have hSame := peeked_of_pull hPeeked hPull
      rw [peek_of_pull hPeeked hPull, hSame]
      rw [hPull] at hAgain
      exact (peek_of_pull (by rw [← hSame]) hAgain).trans
        (by rw [hSame])
    · rw [peek_of_pull hPeeked hPull]
      exact peek_of_peeked rfl
  · rw [peek_of_peeked hPeeked]
    exact peek_of_peeked hPeeked

/- A look makes no difference to the token taken. -/
@[simp]
theorem next_peek
    (c : Cursor) :
    c.peek.2.next = c.next := by
  rcases hPeeked : c.peeked with _ | t
  · rcases hPull : c.pull with ⟨_ | t, d⟩
    · have hAgain := pull_of_ended (c := c) (by rw [hPull])
      have hSame := peeked_of_pull hPeeked hPull
      rw [peek_of_pull hPeeked hPull, hSame,
        next_of_pull hPeeked hPull]
      rw [hPull] at hAgain
      exact next_of_pull (by rw [← hSame]) hAgain
    · have hSame := peeked_of_pull hPeeked hPull
      rw [peek_of_pull hPeeked hPull,
        next_of_pull hPeeked hPull]
      simp only [next, Option.elim_some]
      rw [hSame]
  · rw [peek_of_peeked hPeeked]

/- The end of input seen is the end of input met. -/
theorem next_of_peek_none
    {c d : Cursor}
    (hPeek : c.peek = (none, d)) :
    c.next = (none, d) := by
  rcases hPeeked : c.peeked with _ | t
  · rcases hPull : c.pull with ⟨found, e⟩
    rw [peek_of_pull hPeeked hPull, Prod.mk.injEq] at hPeek
    obtain ⟨rfl, rfl⟩ := hPeek
    rw [next_of_pull hPeeked hPull,
      peeked_of_pull hPeeked hPull]
    rfl
  · rw [peek_of_peeked hPeeked] at hPeek
    simp at hPeek

/- The token seen is the token taken. -/
theorem next_of_peek_some
    {c d : Cursor}
    {t : Token}
    (hPeek : c.peek = (some t, d)) :
    d.next = (some t, d.next.2) := by
  have hPeeked := peek_peeked c
  rw [hPeek] at hPeeked
  rw [← next_of_peeked hPeeked]

/- A token is taken if it is seen to have the kind. -/
theorem eat_eq
    (c : Cursor)
    (kind : TokenKind) :
    c.eat kind
      = if c.peek.1.map Token.kind = some kind then
          c.peek.2.next
        else
          (none, c.peek.2) := by
  unfold eat isAt peekKind
  by_cases hKind : c.peek.1.map Token.kind = some kind
  · simp [hKind]
  · have hFalse :
        (c.peek.1.map Token.kind == some kind) = false := by
      simpa using hKind
    simp only [hFalse, if_neg hKind]

------------------------------------------------------------
-- Skipping, Token by Token
------------------------------------------------------------

/- Skipping stops where the block is closed. -/
theorem skipToClose_of_closed
    {c : Cursor}
    {bodyDepth : Nat}
    (hClosed : bodyDepth = 0 ∨ c.depth < bodyDepth) :
    c.skipToClose bodyDepth = (true, c) := by
  rw [skipToClose, if_pos hClosed]

/- Skipping goes on after a token taken in the block. -/
theorem skipToClose_of_open
    {c : Cursor}
    {bodyDepth : Nat}
    (hPositive : 0 < bodyDepth)
    (hOpen : bodyDepth ≤ c.depth) :
    c.skipToClose bodyDepth
      = match c.next with
        | (none, c') => (false, c')
        | (some _, c') => c'.skipToClose bodyDepth := by
  have hNot : ¬ (bodyDepth = 0 ∨ c.depth < bodyDepth) := by
    omega
  rw [skipToClose, if_neg hNot]
  split <;> simp_all

end Cursor
end BlockScript
