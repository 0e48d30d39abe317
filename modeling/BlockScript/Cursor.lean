import BlockScript.Lexer

/-
  This file defines the cursor that the parser moves along a
  script: a source of tokens, one token of lookahead, the
  nesting of braces, the place of the last token taken, and
  the diagnostics reported so far.

  Key definitions include:
    * `TokenSource`
    * `Cursor`
    * `Cursor.peek`
    * `Cursor.next`
    * `Cursor.eat`
    * `Cursor.checkEnd`
    * `Cursor.reportAtEnd`
    * `Cursor.skipToClose`
    * `Cursor.skipGroup`
    * `Cursor.finish`

  Key theorems include:
    * `Cursor.size_peek_le`
    * `Cursor.size_next_le`
    * `Cursor.size_next_lt`
-/

namespace BlockScript

------------------------------------------------------------
-- Token Sources
------------------------------------------------------------

/-
  Tokens come from a script, from a list made before, or from
  anywhere else. Such a supply may bring problems with each
  of its tokens and when its end is met; `pending` are those
  not yet taken.
-/
inductive TokenSource where
  | script (lexer : Lexer)
  | listed (tokens : List Token)
  | supplied
      (pending : List Diagnostic)
      (supply : List (Token × List Diagnostic))
      (closing : List Diagnostic)
deriving DecidableEq, Repr

namespace TokenSource

/- The next token. -/
def next : TokenSource → Option Token × TokenSource
  | script l =>
      let (t, l) := l.next
      (t, script l)
  | listed [] => (none, listed [])
  | listed (t :: ts) => (some t, listed ts)
  | supplied ds [] closing =>
      (none, supplied (ds ++ closing) [] [])
  | supplied ds ((t, brought) :: rest) closing =>
      (some t, supplied (ds ++ brought) rest closing)

/- Take the problems met while tokens were produced. -/
def drain : TokenSource → List Diagnostic × TokenSource
  | script l =>
      let (ds, l) := l.drain
      (ds, script l)
  | listed ts => ([], listed ts)
  | supplied ds rest closing => (ds, supplied [] rest closing)

/- A bound on the number of tokens to come. -/
def size : TokenSource → Nat
  | script l => l.rest.length
  | listed ts => ts.length
  | supplied _ rest _ => rest.length

@[simp]
theorem size_drain
    (s : TokenSource) :
    s.drain.2.size = s.size := by
  cases s <;> rfl

/- The end of the tokens does not add to the bound. -/
theorem size_next_le
    (s : TokenSource) :
    s.next.2.size ≤ s.size := by
  cases s with
  | script l =>
      simp only [next, size]
      rcases h : l.next with ⟨_ | t, l'⟩
      · unfold Lexer.next at h
        simp only at h
        split at h
        · simp only [Prod.mk.injEq] at h
          simp [← h.2]
        · split at h
          · simp only [Prod.mk.injEq] at h
            simp [← h.2]
          · simp at h
      · exact Nat.le_of_lt (Lexer.next_length h)
  | listed ts =>
      cases ts with
      | nil => exact Nat.le_refl _
      | cons t ts => exact Nat.le_succ _
  | supplied ds rest closing =>
      cases rest with
      | nil => exact Nat.le_refl _
      | cons x rest => exact Nat.le_succ _

/- A token takes from the bound. -/
theorem size_next_lt
    {s : TokenSource}
    (h : s.next.1.isSome) :
    s.next.2.size < s.size := by
  cases s with
  | script l =>
      simp only [next, size] at *
      rcases hNext : l.next with ⟨_ | t, l'⟩
      · simp [hNext] at h
      · exact Lexer.next_length hNext
  | listed ts =>
      cases ts with
      | nil => simp [next] at h
      | cons t ts => exact Nat.lt_succ_self _
  | supplied ds rest closing =>
      cases rest with
      | nil => simp [next] at h
      | cons x rest => exact Nat.lt_succ_self _

end TokenSource

------------------------------------------------------------
-- Cursors
------------------------------------------------------------

/-
  The state of one run over the tokens of a script. `depth`
  is the brace nesting of all tokens taken so far, and a
  closing brace at the top leaves it at zero. `overflowed`
  tells whether a column has been asked for that does not
  fit. The run goes on with the column that `advance` gives;
  a build that checks its sums stops there instead.
-/
structure Cursor where
  source : TokenSource
  peeked : Option Token := none
  diagnostics : Array Diagnostic := #[]
  depth : Nat := 0
  lastSpan : Span := { start := 0, stop := 0 }
  lastLocation : Location := Location.first
  overflowed : Bool := false
deriving DecidableEq, Repr

namespace Cursor

/- The cursor at the start of a script. -/
def ofSource (source : String) : Cursor :=
  { source := .script (Lexer.ofSource source) }

/- The cursor at the start of a list of tokens. -/
def ofTokens (tokens : List Token) : Cursor :=
  { source := .listed tokens }

------------------------------------------------------------
-- Reading
------------------------------------------------------------

/- A token from the source, with the problems it brought. -/
def pull (c : Cursor) : Option Token × Cursor :=
  let (t, source) := c.source.next
  let (ds, source) := source.drain
  (t, { c with source, diagnostics := c.diagnostics ++ ds })

/- The next token, which stays in place. -/
def peek (c : Cursor) : Option Token × Cursor :=
  match c.peeked with
  | some t => (some t, c)
  | none =>
      let (t, c) := c.pull
      (t, { c with peeked := t })

/- The kind of the next token. -/
def peekKind (c : Cursor) : Option TokenKind × Cursor :=
  let (t, c) := c.peek
  (t.map Token.kind, c)

/- Whether the next token has the given kind. -/
def isAt
    (c : Cursor)
    (kind : TokenKind) : Bool × Cursor :=
  let (k, c) := c.peekKind
  (k == some kind, c)

/- Whether no token is left. -/
def isAtEnd (c : Cursor) : Bool × Cursor :=
  let (t, c) := c.peek
  (t.isNone, c)

/- The brace nesting after a token. -/
def depthAfter
    (depth : Nat)
    (kind : TokenKind) : Nat :=
  match kind with
  | .lBrace => depth + 1
  | .rBrace => depth - 1
  | _ => depth

/- Note that a token has been taken. -/
def consume
    (c : Cursor)
    (t : Token) : Cursor :=
  { c with
    depth := depthAfter c.depth t.kind,
    lastSpan := t.span,
    lastLocation := t.location }

/- Take the next token. -/
def next (c : Cursor) : Option Token × Cursor :=
  match c.peeked with
  | some t => (some t, consume { c with peeked := none } t)
  | none =>
      match c.pull with
      | (some t, c) => (some t, c.consume t)
      | (none, c) => (none, c)

/- Take the next token if it has the given kind. -/
def eat
    (c : Cursor)
    (kind : TokenKind) : Option Token × Cursor :=
  match c.isAt kind with
  | (true, c) => c.next
  | (false, c) => (none, c)

------------------------------------------------------------
-- Reporting
------------------------------------------------------------

/- Add a diagnostic. -/
def report
    (c : Cursor)
    (d : Diagnostic) : Cursor :=
  { c with diagnostics := c.diagnostics.push d }

/- Add a diagnostic at a token. -/
def reportAt
    (c : Cursor)
    (d : Diagnostic)
    (t : Token) : Cursor :=
  c.report (d.place t.span t.location)

/- Note whether the end of the last token has a column. -/
def checkEnd (c : Cursor) : Cursor :=
  { c with
    overflowed :=
      c.overflowed || !c.lastLocation.fits c.lastSpan.length }

/-
  Add a diagnostic at the end of the last token taken. The
  column moves on by the number of bytes of that token.
-/
def reportAtEnd
    (c : Cursor)
    (d : Diagnostic) : Cursor :=
  let stop := c.lastSpan.stop
  c.checkEnd.report
    (d.place { start := stop, stop }
      (c.lastLocation.advance c.lastSpan.length))

/- Add a diagnostic at a token, or at the end without one. -/
def reportNear
    (c : Cursor)
    (d : Diagnostic) : Option Token → Cursor
  | some t => c.reportAt d t
  | none => c.reportAtEnd d

/- All diagnostics of the run. -/
def finish (c : Cursor) : List Diagnostic :=
  (c.diagnostics ++ c.source.drain.1).toList

------------------------------------------------------------
-- Size
------------------------------------------------------------

/- A bound on the number of tokens not yet taken. -/
def size (c : Cursor) : Nat :=
  c.source.size + c.peeked.toList.length

@[simp]
theorem size_report
    (c : Cursor)
    (d : Diagnostic) :
    (c.report d).size = c.size :=
  rfl

@[simp]
theorem size_consume
    (c : Cursor)
    (t : Token) :
    (c.consume t).size = c.size :=
  rfl

@[simp]
theorem pull_peeked
    (c : Cursor) :
    c.pull.2.peeked = c.peeked :=
  rfl

@[simp]
theorem pull_source_size
    (c : Cursor) :
    c.pull.2.source.size = c.source.next.2.size := by
  simp [pull]

/- Looking ahead adds no tokens. -/
theorem size_peek_le
    (c : Cursor) :
    c.peek.2.size ≤ c.size := by
  unfold peek
  split
  · exact Nat.le_refl _
  · rename_i hPeeked
    have hLe := TokenSource.size_next_le c.source
    rcases h : c.source.next.1 with _ | t
    · simp only [size, pull_source_size, hPeeked]
      simp [pull, h, hLe]
    · have hLt :=
        TokenSource.size_next_lt (s := c.source) (by simp [h])
      simp only [size, pull_source_size, hPeeked]
      simp [pull, h]
      omega

/- Taking a token adds no tokens. -/
theorem size_next_le
    (c : Cursor) :
    c.next.2.size ≤ c.size := by
  have hLe := TokenSource.size_next_le c.source
  unfold next
  split
  · rename_i t hPeeked
    simp [size, hPeeked, consume]
  · rename_i hPeeked
    have hPull : c.pull.2.size ≤ c.size := by
      simp [size, hPeeked, hLe]
    split
    · rename_i t c' h
      simpa [h] using hPull
    · rename_i c' h
      simpa [h] using hPull

/- A token taken is gone. -/
theorem size_next_lt
    {c : Cursor}
    (h : c.next.1.isSome) :
    c.next.2.size < c.size := by
  unfold next at *
  split at h
  · rename_i t hPeeked
    simp [size, hPeeked, consume]
  · rename_i hPeeked
    split at h
    · rename_i t c' hPull
      have hSource : c.source.next.1.isSome := by
        have hFirst := congrArg Prod.fst hPull
        simp only [pull] at hFirst
        simp [hFirst]
      have hLt := TokenSource.size_next_lt hSource
      have hSecond := congrArg (fun p => p.2.size) hPull
      simp only [size, pull_source_size, pull_peeked,
        hPeeked] at hSecond
      change c'.size < c.size
      simp only [size, hPeeked] at *
      omega
    · simp at h

/- The token looked at is the next one taken. -/
theorem next_of_peeked
    {c : Cursor}
    {t : Token}
    (h : c.peeked = some t) :
    c.next.1 = some t := by
  simp [next, h]

/- The token looked at is the one looked at again. -/
theorem peek_peeked
    (c : Cursor) :
    c.peek.2.peeked = c.peek.1 := by
  unfold peek
  split
  · assumption
  · rfl

------------------------------------------------------------
-- Skipping
------------------------------------------------------------

/-
  Take tokens until the block is closed in whose body the
  nesting is `bodyDepth`. False if input ends first.
-/
def skipToClose
    (c : Cursor)
    (bodyDepth : Nat) : Bool × Cursor :=
  if bodyDepth = 0 ∨ c.depth < bodyDepth then
    (true, c)
  else
    match _ : c.next with
    | (none, c') => (false, c')
    | (some _, c') => c'.skipToClose bodyDepth
termination_by c.size
decreasing_by
  rename_i h
  have hLt := size_next_lt (c := c) (by simp [h])
  simpa [h] using hLt

/-
  Take a group in braces if the next token opens one. False
  if input ends inside it.
-/
def skipGroup (c : Cursor) : Bool × Cursor :=
  match c.eat .lBrace with
  | (none, c) => (true, c)
  | (some _, c) => c.skipToClose c.depth

end Cursor
end BlockScript
