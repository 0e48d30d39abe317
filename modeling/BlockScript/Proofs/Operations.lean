import BlockScript.Proofs.Reporting
import BlockScript.Proofs.Taking

/-
  This file runs a cursor through any operations, in any
  order, and keeps book of the tokens that they take and the
  diagnostics that they report.

  Key definitions include:
    * `Cursor.Operation`
    * `Cursor.Run`
    * `Cursor.Run.Accounts`

  Key theorems include:
    * `Cursor.Operation.takes_apply`
    * `Cursor.Operation.logs_apply`
    * `Cursor.Run.from_after`
    * `Cursor.Run.accounts_after`
-/

namespace BlockScript

/- A diagnostic at the end of the last of some tokens. -/
def Diagnostic.placeAfterAll
    (d : Diagnostic)
    (taken : List Token) : Diagnostic :=
  match taken.getLast? with
  | some t => d.placeAfter t
  | none => d.place { start := 0, stop := 0 } .first

namespace Cursor

------------------------------------------------------------
-- Tokens Taken by Skipping
------------------------------------------------------------

/- The tokens that skipping takes, one after the other. -/
def skipped
    (c : Cursor)
    (bodyDepth : Nat) : List Token :=
  if bodyDepth = 0 ∨ c.depth < bodyDepth then
    []
  else
    match _ : c.next with
    | (none, _) => []
    | (some t, c') => t :: c'.skipped bodyDepth
termination_by c.size
decreasing_by
  rename_i h
  have hLt := size_next_lt (c := c) (by simp [h])
  simpa [h] using hLt

/- The tokens that passing over a group takes. -/
def skippedGroup (c : Cursor) : List Token :=
  match c.eat .lBrace with
  | (none, _) => []
  | (some l, d) => l :: d.skipped d.depth

theorem takes_of_next
    {c d : Cursor}
    {found : Option Token}
    (hNext : c.next = (found, d)) :
    c.Takes found.toList [] d := by
  rcases hTokens : c.tokens with _ | ⟨t, ts⟩
  · rw [next_of_tokens_nil hTokens, Prod.mk.injEq] at hNext
    rcases hNext with ⟨rfl, rfl⟩
    exact c.takes_peek
  · rcases takes_next hTokens with ⟨e, hTaken, hTakes, -⟩
    rw [hTaken, Prod.mk.injEq] at hNext
    rcases hNext with ⟨rfl, rfl⟩
    exact hTakes

theorem takes_of_eat
    {c d : Cursor}
    {kind : TokenKind}
    {found : Option Token}
    (hEat : c.eat kind = (found, d)) :
    c.Takes found.toList [] d := by
  rw [eat_eq] at hEat
  split at hEat
  · exact c.takes_peek.trans (takes_of_next hEat)
  · rw [Prod.mk.injEq] at hEat
    rcases hEat with ⟨rfl, rfl⟩
    exact c.takes_peek

/- Skipping takes one token after the other. -/
theorem takes_skipped
    (c : Cursor)
    (bodyDepth : Nat) :
    c.Takes (c.skipped bodyDepth) []
      (c.skipToClose bodyDepth).2 := by
  fun_induction skipped c bodyDepth with
  | case1 c hClosed =>
      rw [skipToClose_of_closed hClosed]
      exact .refl c
  | case2 c hOpen d hNext =>
      rw [skipToClose_of_open (by omega) (by omega), hNext]
      exact takes_of_next hNext
  | case3 c hOpen t d hNext ih =>
      rw [skipToClose_of_open (by omega) (by omega), hNext]
      exact (takes_of_next hNext).trans ih

theorem takes_skippedGroup
    (c : Cursor) :
    c.Takes c.skippedGroup [] c.skipGroup.2 := by
  unfold skippedGroup skipGroup
  rcases hEat : c.eat .lBrace with ⟨_ | l, d⟩
  · exact takes_of_eat hEat
  · exact (takes_of_eat hEat).trans (d.takes_skipped d.depth)

theorem Logs.skipGroup
    {c d : Cursor}
    {ds : List Diagnostic}
    (hLogs : c.Logs ds d) :
    c.Logs ds d.skipGroup.2 := by
  have hLogged := hLogs.eat .lBrace
  unfold Cursor.skipGroup
  rcases hEat : d.eat .lBrace with ⟨_ | l, e⟩
  · rwa [hEat] at hLogged
  · rw [hEat] at hLogged
    exact hLogged.skipToClose e.depth

------------------------------------------------------------
-- The Last Token Taken
------------------------------------------------------------

/-
  The last token that a cursor has taken is the last of
  these. Without any, it stands at the start.
-/
structure LastOf
    (c : Cursor)
    (taken : List Token) : Prop where
  span :
    c.lastSpan
      = (taken.getLast?.map Token.span).getD
          { start := 0, stop := 0 }
  location :
    c.lastLocation
      = (taken.getLast?.map Token.location).getD .first

theorem foldl_getLast?
    {α : Type}
    (f : Token → α)
    (x : α)
    (ts : List Token) :
    ts.foldl (fun _ t => f t) x = (ts.getLast?.map f).getD x := by
  cases ts with
  | nil => rfl
  | cons t ts =>
      rw [List.foldl_cons, foldl_last, List.getLast?_cons,
        List.getLastD_eq_getLast?]
      rfl

theorem Takes.lastOf
    {c c' : Cursor}
    {taken : List Token}
    {reported : List Diagnostic}
    (hTakes : c.Takes taken reported c')
    (hStart : c.LastOf []) :
    c'.LastOf taken where
  span := by
    rw [hTakes.lastSpan, hStart.span, foldl_getLast?]
    rfl
  location := by
    rw [hTakes.lastLocation, hStart.location, foldl_getLast?]
    rfl

/- At the end, the last token taken is the last there is. -/
theorem Reaches.lastOf
    {c d : Cursor}
    (hReaches : c.Reaches d)
    (hStart : c.LastOf [])
    (hEnd : d.tokens = []) :
    d.LastOf c.tokens := by
  rcases hReaches.takes with ⟨taken, reported, hTakes⟩
  rw [hTakes.tokens, hEnd, List.append_nil]
  exact hTakes.lastOf hStart

theorem reportAtEnd_eq_placeAfterAll
    {c : Cursor}
    {taken : List Token}
    (d : Diagnostic)
    (hLast : c.LastOf taken) :
    c.reportAtEnd d
      = c.checkEnd.report (d.placeAfterAll taken) := by
  rcases hLast with ⟨hSpan, hLocation⟩
  unfold Diagnostic.placeAfterAll
  rcases hEnd : taken.getLast? with _ | t <;>
    rw [hEnd] at hSpan hLocation
  · simp only [reportAtEnd, hSpan, hLocation]
    rfl
  · exact reportAtEnd_eq d ⟨hSpan, hLocation⟩

------------------------------------------------------------
-- Operations
------------------------------------------------------------

/- What can be done with a cursor. -/
inductive Operation where
  | peek
  | peekKind
  | isAt (kind : TokenKind)
  | isAtEnd
  | next
  | eat (kind : TokenKind)
  | skipToClose (bodyDepth : Nat)
  | skipGroup
  | report (d : Diagnostic)
  | reportAt (d : Diagnostic) (t : Token)
  | reportAtEnd (d : Diagnostic)

namespace Operation

/- The cursor after an operation. -/
def apply
    (c : Cursor) : Operation → Cursor
  | peek => c.peek.2
  | peekKind => c.peekKind.2
  | isAt kind => (c.isAt kind).2
  | isAtEnd => c.isAtEnd.2
  | next => c.next.2
  | eat kind => (c.eat kind).2
  | skipToClose bodyDepth => (c.skipToClose bodyDepth).2
  | skipGroup => c.skipGroup.2
  | report d => c.report d
  | reportAt d t => c.reportAt d t
  | reportAtEnd d => c.reportAtEnd d

/- The tokens that an operation takes. -/
def taken
    (c : Cursor) : Operation → List Token
  | next => c.next.1.toList
  | eat kind => (c.eat kind).1.toList
  | skipToClose bodyDepth => c.skipped bodyDepth
  | skipGroup => c.skippedGroup
  | _ => []

/-
  What an operation reports after some tokens have been
  taken.
-/
def reports
    (before : List Token) : Operation → List Diagnostic
  | report d => [d]
  | reportAt d t => [d.place t.span t.location]
  | reportAtEnd d => [d.placeAfterAll before]
  | _ => []

/-
  Operations that only look at the next token. A brace or
  word that is not there is looked for and not taken.
-/
def Looks
    (c : Cursor) : Operation → Prop
  | peek | peekKind | isAt _ | isAtEnd => True
  | eat kind => (c.eat kind).1 = none
  | _ => False

theorem takes_apply
    (c : Cursor)
    (op : Operation) :
    ∃ reported, c.Takes (op.taken c) reported (op.apply c) := by
  cases op with
  | peek => exact ⟨[], c.takes_peek⟩
  | peekKind => exact ⟨[], c.takes_peek⟩
  | isAt => exact ⟨[], c.takes_peek⟩
  | isAtEnd => exact ⟨[], c.takes_peek⟩
  | next => exact ⟨[], takes_of_next rfl⟩
  | eat => exact ⟨[], takes_of_eat rfl⟩
  | skipToClose bodyDepth =>
      exact ⟨[], c.takes_skipped bodyDepth⟩
  | skipGroup => exact ⟨[], c.takes_skippedGroup⟩
  | report d => exact ⟨_, c.takes_report d⟩
  | reportAt d t => exact ⟨_, c.takes_report _⟩
  | reportAtEnd d =>
      exact ⟨_, c.takes_checkEnd.trans (takes_report _ _)⟩

theorem logs_apply
    {c : Cursor}
    {before : List Token}
    (op : Operation)
    (hLast : c.LastOf before) :
    c.Logs (op.reports before) (op.apply c) := by
  have hStart : c.Logs [] c := .refl
  cases op with
  | peek => exact hStart.peek
  | peekKind => exact hStart.peek
  | isAt => exact hStart.peek
  | isAtEnd => exact hStart.peek
  | next => exact hStart.next
  | eat kind => exact hStart.eat kind
  | skipToClose bodyDepth => exact hStart.skipToClose bodyDepth
  | skipGroup => exact hStart.skipGroup
  | report d => exact hStart.report d
  | reportAt d t => exact hStart.report _
  | reportAtEnd d =>
      rw [apply, reportAtEnd_eq_placeAfterAll d hLast]
      exact hStart.checkEnd.report _

theorem taken_of_looks
    {c : Cursor}
    {op : Operation}
    (hLooks : op.Looks c) :
    op.taken c = [] := by
  cases op with
  | eat kind =>
      rw [taken, show (c.eat kind).1 = none from hLooks]
      rfl
  | _ => first | rfl | exact hLooks.elim

end Operation

------------------------------------------------------------
-- Runs
------------------------------------------------------------

/-
  A cursor on its way, with the tokens that it was made to
  take and the diagnostics that it was made to report.
-/
structure Run where
  cursor : Cursor
  taken : List Token := []
  reported : List Diagnostic := []

namespace Run

/- A run before its first operation. -/
def start (c : Cursor) : Run :=
  { cursor := c }

def step
    (run : Run)
    (op : Operation) : Run :=
  { cursor := op.apply run.cursor,
    taken := run.taken ++ op.taken run.cursor,
    reported := run.reported ++ op.reports run.taken }

/- A run after some more operations. -/
def after
    (run : Run)
    (ops : List Operation) : Run :=
  ops.foldl step run

/- What a run has done since it was at the cursor `c`. -/
structure From
    (c : Cursor)
    (run : Run) : Prop where
  takes : ∃ reported, c.Takes run.taken reported run.cursor
  logs : c.Logs run.reported run.cursor

/- A cursor that has taken nothing and reported nothing. -/
structure Fresh (c : Cursor) : Prop where
  diagnostics : c.diagnostics = #[]
  depth : c.depth = 0
  last : c.LastOf []

namespace From

variable {c : Cursor}
variable {run : Run}

theorem lastOf
    (hFresh : Fresh c)
    (hFrom : run.From c) :
    run.cursor.LastOf run.taken := by
  rcases hFrom.takes with ⟨reported, hTakes⟩
  exact hTakes.lastOf hFresh.last

/- Each operation adds what it takes and reports. -/
theorem step
    (op : Operation)
    (hFresh : Fresh c)
    (hFrom : run.From c) :
    (run.step op).From c where
  takes := by
    rcases hFrom.takes with ⟨reported, hTakes⟩
    rcases op.takes_apply run.cursor with ⟨more, hMore⟩
    exact ⟨_, hTakes.trans hMore⟩
  logs := hFrom.logs.trans (op.logs_apply (hFrom.lastOf hFresh))

end From

theorem from_after
    {c : Cursor}
    {run : Run}
    (ops : List Operation)
    (hFresh : Fresh c)
    (hFrom : run.From c) :
    (run.after ops).From c := by
  induction ops generalizing run with
  | nil => exact hFrom
  | cons op ops ih => exact ih (hFrom.step op hFresh)

theorem from_start
    {c : Cursor} :
    (start c).From c where
  takes := ⟨[], .refl c⟩
  logs := .refl

------------------------------------------------------------
-- Accounts
------------------------------------------------------------

/- The same tokens to come, at the same nesting. -/
structure SameStanding (c c' : Cursor) : Prop where
  tokens :
    c'.peeked.toList ++ c'.source.tokens
      = c.peeked.toList ++ c.source.tokens
  depth : c'.depth = c.depth
  lastSpan : c'.lastSpan = c.lastSpan

/-
  The books of a run over `tokens`, which were made with
  `problems`. No token is lost, repeated or moved, nesting
  and last token follow from the tokens taken, and looking
  ahead changes nothing of this. In the end there is what was
  reported, in order, and with it the problems that the
  source has met so far, each of them once.
-/
structure Accounts
    (tokens : List Token)
    (problems : List Diagnostic)
    (run : Run) : Prop where
  tokens :
    run.taken ++ run.cursor.peeked.toList
        ++ run.cursor.source.tokens
      = tokens
  depth :
    run.cursor.depth
      = run.taken.foldl (fun n t => depthAfter n t.kind) 0
  lastSpan :
    run.cursor.lastSpan
      = (run.taken.getLast?.map Token.span).getD
          { start := 0, stop := 0 }
  looks :
    ∀ op : Operation,
      op.Looks run.cursor →
        (run.step op).taken = run.taken
          ∧ SameStanding run.cursor (run.step op).cursor
  finish :
    ∃ met,
      met ++ run.cursor.source.drain.2.problems = problems
        ∧ Interleaves run.reported met run.cursor.finish

theorem looks_step
    {run : Run}
    {op : Operation}
    (hLooks : op.Looks run.cursor) :
    (run.step op).taken = run.taken
      ∧ SameStanding run.cursor (run.step op).cursor := by
  have hNone := Operation.taken_of_looks hLooks
  rcases op.takes_apply run.cursor with ⟨reported, hTakes⟩
  rw [hNone] at hTakes
  constructor
  · rw [step, hNone, List.append_nil]
  · exact ⟨hTakes.tokens.symm, hTakes.depth, hTakes.lastSpan⟩

/- The books of a run from a fresh cursor. -/
theorem From.accounts
    {c : Cursor}
    {run : Run}
    (hFresh : Fresh c)
    (hFrom : run.From c) :
    run.Accounts c.tokens c.source.problems where
  tokens := by
    rcases hFrom.takes with ⟨reported, hTakes⟩
    rw [hTakes.tokens, List.append_assoc]
    rfl
  depth := by
    rcases hFrom.takes with ⟨reported, hTakes⟩
    rw [hTakes.depth, hFresh.depth]
  lastSpan := (hFrom.lastOf hFresh).span
  looks _ hLooks := looks_step hLooks
  finish := by
    rcases hFrom.logs.interleaves with
      ⟨new, met, hNew, hBetween, hMet⟩
    -- Problems not handed over yet come last.
    refine ⟨met ++ run.cursor.source.drain.1, ?_, ?_⟩
    · rw [List.append_assoc, TokenSource.problems_drain, hMet]
    · rw [hFresh.diagnostics, Array.toList_empty,
        List.nil_append] at hNew
      rw [Cursor.finish, Array.toList_appendList, hNew]
      simpa using hBetween.append (.onlyRight _)

/-
  Whatever is done with a cursor, in whatever order, its
  books are right: for a script that is read as needed, for
  tokens made before, and wherever else tokens come from.
-/
theorem accounts_after
    (ops : List Operation) :
    (∀ source : String,
        ((start (.ofSource source)).after ops).Accounts
          (tokenize source).1 (tokenize source).2)
      ∧ (∀ tokens : List Token,
          ((start (.ofTokens tokens)).after ops).Accounts
            tokens [])
      ∧ ∀ s : TokenSource,
          ((start { source := s }).after ops).Accounts
            s.tokens s.problems := by
  have hAll :
      ∀ s : TokenSource,
        ((start { source := s }).after ops).Accounts
          s.tokens s.problems := by
    intro s
    have hFresh : Fresh { source := s } := ⟨rfl, rfl, rfl, rfl⟩
    exact (from_after ops hFresh from_start).accounts hFresh
  refine ⟨?_, ?_, hAll⟩
  · intro source
    exact hAll (.script (.ofSource source))
  · intro tokens
    exact hAll (.listed tokens)

end Run
end Cursor
end BlockScript
