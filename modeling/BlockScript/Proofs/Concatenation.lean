import BlockScript.Proofs.Continuation
import BlockScript.Proofs.Dispatch
import BlockScript.Proofs.Problems
import BlockScript.Proofs.Shift

/-
  This file shows that what stands in front of a script has
  no part in it, however broken it is, as long as it is
  complete and the script starts with a keyword.

  Key definitions include:
    * `Cursor.endDepth`
    * `Cursor.Continued`
    * `Simulation.continued`
    * `Script.append`

  Key theorems include:
    * `Script.endDepth_eq_zero`
    * `Simulation.registries_continued`
    * `Script.parse_append`
-/

namespace BlockScript

------------------------------------------------------------
-- Nesting at the End
------------------------------------------------------------

namespace Cursor

/- The nesting once all tokens have been taken. -/
def endDepth (c : Cursor) : Nat :=
  c.tokens.foldl (fun d t => depthAfter d t.kind) c.depth

/- No operation changes where the nesting ends. -/
theorem Reaches.endDepth_eq
    {c d : Cursor}
    (hReaches : c.Reaches d) :
    d.endDepth = c.endDepth := by
  induction hReaches with
  | refl => rfl
  | peek _ ih => rw [← ih, endDepth, tokens_peek, depth_peek]; rfl
  | @next d _ ih =>
      rw [← ih]
      rcases hTokens : d.tokens with _ | ⟨t, ts⟩
      · rw [next_of_tokens_nil hTokens, endDepth, tokens_peek,
          depth_peek]
        rfl
      · obtain ⟨e, hNext, hTakes, hRest⟩ := takes_next hTokens
        rw [hNext, endDepth, endDepth, hRest, hTokens,
          hTakes.depth]
        rfl
  | report x _ ih => exact ih
  | checkEnd _ ih => exact ih

end Cursor

/- A diagnostic at a place that has no bytes. -/
def Diagnostic.isPoint (d : Diagnostic) : Bool :=
  d.span.any Span.isEmpty

@[simp]
theorem Diagnostic.isPoint_placeAfter
    (d : Diagnostic)
    (t : Token) :
    (d.placeAfter t).isPoint = true := by
  simp [isPoint, placeAfter, place, Span.isEmpty, Span.length]

/- A group is closed, or reported at its end. -/
theorem Braces.depth_eq
    {rest : List Token}
    (braces : Braces)
    (problem : Problem)
    (hFits : braces.Fits rest) :
    braces.tokens.foldl
          (fun d t => Cursor.depthAfter d t.kind) 0 = 0
      ∨ ∃ x ∈ braces.reports problem, x.isPoint = true := by
  cases braces with
  | absent => exact .inl rfl
  | closed l inner r =>
      obtain ⟨hLeft, hInner, hRight⟩ := hFits
      left
      rw [tokens, List.cons_append, List.foldl_cons,
        List.foldl_append, hInner.depth_eq, List.foldl_cons,
        hLeft, hRight]
      rfl
  | unclosed l inner =>
      exact .inr ⟨_, List.mem_singleton_self _, by simp⟩

/- No brace stands before the group of a block. -/
theorem Item.plain_header
    {k : Token}
    {name : Option Token}
    (hKind : k.kind = .ident)
    (hName : ∀ t ∈ name, t.kind ≠ .lBrace) :
    ∀ t ∈ k :: name.toList, t.kind ≠ .lBrace := by
  intro t ht
  rcases List.mem_cons.mp ht with rfl | ht
  · simp [hKind]
  · exact hName t (Option.mem_toList.mp ht)

/- An item is closed, or reported at its end. -/
theorem Item.depth_eq
    {r : Registry}
    {rest : List Token}
    (item : Item)
    (hFits : item.Fits r rest) :
    item.tokens.foldl
          (fun d t => Cursor.depthAfter d t.kind) 0 = 0
      ∨ ∃ x ∈ item.reports rest, x.isPoint = true := by
  cases item with
  | block k named name braces =>
      obtain ⟨hKind, -, hName, hBraces⟩ := hFits
      have hNamed : ∀ t ∈ name, t.kind ≠ .lBrace := by
        rintro t rfl hBrace
        exact hName.not_brace.2 (.inl hBrace)
      have hPlain := plain_header hKind hNamed
      rcases braces.depth_eq (.openBlock k.text) hBraces with
        hZero | ⟨x, hx, hPoint⟩
      · left
        rw [tokens, List.foldl_append,
          Cursor.depth_of_plain hPlain, hZero]
      · refine .inr ⟨x, List.mem_append_right _ ?_, hPoint⟩
        cases braces with
        | absent => simp [Braces.reports] at hx
        | closed => exact hx
        | unclosed => exact hx
  | unknown k name braces =>
      obtain ⟨hKind, -, hName, -, hBraces⟩ := hFits
      have hNamed : ∀ t ∈ name, t.kind ≠ .lBrace := by
        rintro t rfl
        rcases hName t rfl with h | h | ⟨h, -⟩ <;> simp [h]
      have hPlain := plain_header hKind hNamed
      rcases braces.depth_eq .openUnknownBlock hBraces with
        hZero | ⟨x, hx, hPoint⟩
      · left
        rw [tokens, List.foldl_append,
          Cursor.depth_of_plain hPlain, hZero]
      · exact .inr ⟨x, List.mem_cons_of_mem _ hx, hPoint⟩
  | stray run braces =>
      obtain ⟨hRun, -, -, hBraces⟩ := hFits
      rcases braces.depth_eq .openGroup hBraces with
        hZero | ⟨x, hx, hPoint⟩
      · left
        rw [tokens, List.foldl_append,
          Cursor.depth_of_plain fun t ht => (hRun t ht).2, hZero]
      · exact .inr ⟨x, List.mem_append_right _ hx, hPoint⟩

/- All items are closed, or one is reported at its end. -/
theorem Splits.depth_eq
    {r : Registry}
    {ts : List Token}
    {items : List Item}
    (hSplits : Splits r ts items) :
    ts.foldl (fun d t => Cursor.depthAfter d t.kind) 0 = 0
      ∨ ∃ x ∈ Items.reports items, x.isPoint = true := by
  induction hSplits with
  | nil => exact .inl rfl
  | @cons item rest items hFits hRest ih =>
      rw [Items.reports, hRest.tokens_eq]
      rcases item.depth_eq hFits with hZero | ⟨x, hx, hPoint⟩
      · rcases ih with hRest | ⟨x, hx, hPoint⟩
        · left
          rw [List.foldl_append, hZero, hRest]
        · exact .inr ⟨x, List.mem_append_right _ hx, hPoint⟩
      · exact .inr ⟨x, List.mem_append_left _ hx, hPoint⟩

namespace Script

/-
  A script that does not end inside a group leaves nothing
  open.
-/
theorem endDepth_eq_zero
    {r : Registry}
    {source : String}
    (hPlain : r.Plain)
    (hEnded :
      ∀ x ∈ (parse r source).diagnostics, x.isPoint = false) :
    (Cursor.ofSource source).endDepth = 0 := by
  obtain ⟨items, d, hReads, hSplits, hTakes⟩ :=
    Registry.takes_readItems (r := r.bare)
      (c := .ofSource source) []
      (fun _ _ hLookup => Registry.body_bare hLookup)
      (fun _ => rfl)
  rcases hSplits.depth_eq with hZero | ⟨x, hx, hPoint⟩
  · exact hZero
  · -- The report is not about a body, so it is there with
    -- bodies as well as without.
    have hBare : x ∈ (parse r.bare source).diagnostics := by
      simp only [parse, ofCursor, hReads, Cursor.finish,
        Array.toList_appendList]
      exact List.mem_append_left _ (hTakes.reports x hx)
    have hOutside :=
      (sameStructure_bare hPlain (.ofSource source)).diagnostics
    rw [← parse, ← parse] at hOutside
    have hKind : (x.kind != .malformedBody) = true := by
      rw [← Items.outsideBodies_reports,
        Diagnostics.outsideBodies, List.mem_filter] at hx
      exact hx.2
    have hMember :
        x ∈ Diagnostics.outsideBodies
          (parse r source).diagnostics := by
      rw [hOutside]
      exact List.mem_filter.mpr ⟨hBare, hKind⟩
    rw [hEnded x (List.mem_filter.mp hMember).1] at hPoint
    simp at hPoint

end Script
------------------------------------------------------------
-- Texts That Go On
------------------------------------------------------------

namespace Cursor

/-
  Cursors over the same text, which on the right goes on with
  a line feed and `more`. It ends at `p`, and its tokens are
  read without problems.
-/
structure Continued
    (p : Position)
    (more : List Char)
    (c c' : Cursor) : Prop where
  source :
    ∃ l,
      c.source = .script l
        ∧ l.problems = []
        ∧ l.position.after l.rest = p
        ∧ c' =
            { c with
              source := .script (l.followedBy ('\n' :: more)) }

/- The cursor that reads on with `more` after a text. -/
def resumed
    (p : Position)
    (more : List Char)
    (c : Cursor) : Cursor :=
  { c with source := .script (.resume p more) }

/-
  The left run has looked at the end of its text, and the
  right one at what follows.
-/
structure EndedBefore
    (p : Position)
    (more : List Char)
    (c c' : Cursor) : Prop where
  peek : c.peek = (none, c)
  rest : c' = (c.resumed p more).peek.2

/- A token read without problems is pulled as it is. -/
theorem pull_of_next
    {c : Cursor}
    {l m : Lexer}
    {found : Option Token}
    (hSource : c.source = .script l)
    (hNext : l.next = (found, m))
    (hPending : m.pending = []) :
    c.pull = (found, { c with source := .script m }) := by
  have hDrain : m.drain = ([], m) := by
    cases m
    simp_all [Lexer.drain]
  simp [pull, hSource, TokenSource.next, TokenSource.drain,
    hNext, hDrain]

/- Where there is no more text, there is no more token. -/
theorem peek_of_rest_nil
    {c : Cursor}
    {l : Lexer}
    (hPeeked : c.peeked = none)
    (hSource : c.source = .script l)
    (hRest : l.rest = [])
    (hPending : l.pending = []) :
    c.peek = (none, c) := by
  have hPull :=
    pull_of_next hSource (Lexer.next_of_rest_nil hRest) hPending
  rw [peek_of_pull hPeeked hPull]
  cases c
  simp_all

namespace Continued

variable {p : Position}
variable {more : List Char}
variable {c c' : Cursor}

theorem depth_eq
    (hContinued : Continued p more c c') :
    c'.depth = c.depth := by
  obtain ⟨l, -, -, -, rfl⟩ := hContinued
  rfl

theorem lastSpan_eq
    (hContinued : Continued p more c c') :
    c'.lastSpan = c.lastSpan := by
  obtain ⟨l, -, -, -, rfl⟩ := hContinued
  rfl

theorem peeked_eq
    (hContinued : Continued p more c c') :
    c'.peeked = c.peeked := by
  obtain ⟨l, -, -, -, rfl⟩ := hContinued
  rfl

theorem report
    (d : Diagnostic)
    (hContinued : Continued p more c c') :
    Continued p more (c.report d) (c'.report d) := by
  obtain ⟨l, hSource, hProblems, hEnd, rfl⟩ := hContinued
  exact ⟨l, hSource, hProblems, hEnd, rfl⟩

theorem reportAtEnd
    (d : Diagnostic)
    (hContinued : Continued p more c c') :
    Continued p more (c.reportAtEnd d) (c'.reportAtEnd d) := by
  obtain ⟨l, hSource, hProblems, hEnd, rfl⟩ := hContinued
  exact ⟨l, hSource, hProblems, hEnd, rfl⟩

theorem keep
    (peeked : Option Token)
    (hContinued : Continued p more c c') :
    Continued p more { c with peeked } { c' with peeked } := by
  obtain ⟨l, hSource, hProblems, hEnd, rfl⟩ := hContinued
  exact ⟨l, hSource, hProblems, hEnd, rfl⟩

theorem consume
    (t : Token)
    (hContinued : Continued p more c c') :
    Continued p more (c.consume t) (c'.consume t) := by
  obtain ⟨l, hSource, hProblems, hEnd, rfl⟩ := hContinued
  exact ⟨l, hSource, hProblems, hEnd, rfl⟩

/-
  The same tokens are pulled. At the end, the right one goes
  on with what follows.
-/
theorem pull
    (hContinued : Continued p more c c') :
    (∃ t d d',
      c.pull = (some t, d)
        ∧ c'.pull = (some t, d')
        ∧ Continued p more d d')
      ∨ ∃ d,
          c.pull = (none, d)
            ∧ c'.pull = (d.resumed p more).pull := by
  obtain ⟨l, hSource, hProblems, rfl, rfl⟩ := hContinued
  have hPending := Lexer.pending_of_problems hProblems
  rcases hNext : l.next with ⟨_ | t, m⟩
  · have hLast : m.pending = [] := by
      rw [← Lexer.problems_of_none hNext, hProblems]
    have hRest := Lexer.next_resumed more hNext hLast hPending
    right
    refine ⟨{ c with source := .script m },
      pull_of_next hSource hNext hLast, ?_⟩
    simp only [Cursor.pull, resumed, TokenSource.next, hRest]
  · have hNone : m.problems = [] := by
      rw [← Lexer.problems_of_some hNext, hProblems]
    have hLast := Lexer.pending_of_problems hNone
    have hFeed : Text.isBlank '\n' = true := by decide
    have hMore :=
      Lexer.next_followed more hFeed hNext
        (hLast.trans hPending.symm)
    left
    refine ⟨t, { c with source := .script m },
      { c with
        source := .script (m.followedBy ('\n' :: more)) },
      pull_of_next hSource hNext hLast,
      pull_of_next rfl hMore hLast, ?_⟩
    exact ⟨m, rfl, hNone, Lexer.next_position hNext, rfl⟩

/- The same tokens are seen, up to the end on the left. -/
theorem peek
    (hContinued : Continued p more c c') :
    InStep Eq (Continued p more) (EndedBefore p more)
      c.peek c'.peek := by
  have hSame := hContinued.peeked_eq
  rcases hPeeked : c.peeked with _ | t
  · rw [hPeeked] at hSame
    rcases hContinued.pull with
      ⟨t, d, d', hPull, hPull', hBoth⟩ | ⟨d, hPull, hPull'⟩
    · rw [peek_of_pull hPeeked hPull, peek_of_pull hSame hPull']
      exact .both rfl (hBoth.keep (some t))
    · have hNone := peeked_of_pull hPeeked hPull
      have hAgain := peek_peek c
      rw [peek_of_pull hPeeked hPull, hNone] at hAgain ⊢
      have hRest : c'.peek = (d.resumed p more).peek := by
        have hEmpty : (d.resumed p more).peeked = none := by
          rw [← hNone]
          rfl
        rcases hThere : (d.resumed p more).pull with ⟨found, e⟩
        rw [hThere] at hPull'
        rw [peek_of_pull hSame hPull',
          peek_of_pull hEmpty hThere]
      rw [hRest]
      exact .left ⟨hAgain, rfl⟩
  · rw [hPeeked] at hSame
    rw [peek_of_peeked hPeeked, peek_of_peeked hSame]
    exact .both rfl hContinued

/-
  The same tokens are taken. At the end, the right one goes
  on with what follows.
-/
theorem next
    (hContinued : Continued p more c c') :
    (∃ t d d',
      c.next = (some t, d)
        ∧ c'.next = (some t, d')
        ∧ Continued p more d d')
      ∨ ∃ d,
          c.next = (none, d)
            ∧ c'.next = (d.resumed p more).next := by
  have hSame := hContinued.peeked_eq
  rcases hPeeked : c.peeked with _ | t
  · rw [hPeeked] at hSame
    rcases hContinued.pull with
      ⟨t, d, d', hPull, hPull', hBoth⟩ | ⟨d, hPull, hPull'⟩
    · rw [next_of_pull hPeeked hPull, next_of_pull hSame hPull']
      exact .inl ⟨t, _, _, rfl, rfl, hBoth.consume t⟩
    · rw [next_of_pull hPeeked hPull]
      refine .inr ⟨d, rfl, ?_⟩
      have hEmpty : (d.resumed p more).peeked = none := by
        rw [← peeked_of_pull hPeeked hPull]
        rfl
      rcases hThere : (d.resumed p more).pull with ⟨found, e⟩
      rw [hThere] at hPull'
      rw [next_of_pull hSame hPull', next_of_pull hEmpty hThere]
  · rw [hPeeked] at hSame
    simp only [Cursor.next, hPeeked, hSame]
    exact .inl ⟨t, _, _, rfl, rfl,
      (hContinued.keep none).consume t⟩

end Continued

/- No report is taken back. -/
theorem Reaches.mem_diagnostics
    {c d : Cursor}
    {x : Diagnostic}
    (hReaches : c.Reaches d)
    (hx : x ∈ c.diagnostics.toList) :
    x ∈ d.diagnostics.toList := by
  induction hReaches with
  | refl => exact hx
  | @peek d _ ih => exact d.takes_peek.kept x ih
  | @next d _ ih =>
      rcases hTokens : d.tokens with _ | ⟨t, ts⟩
      · rw [next_of_tokens_nil hTokens]
        exact d.takes_peek.kept x ih
      · obtain ⟨e, hNext, hTakes, -⟩ := takes_next hTokens
        rw [hNext]
        exact hTakes.kept x ih
  | @report d y _ ih => exact (d.takes_report y).kept x ih
  | checkEnd _ ih => exact ih

/- Whether something was reported at a place without bytes. -/
def HasPoint (c : Cursor) : Prop :=
  ∃ x ∈ c.diagnostics.toList, x.isPoint = true

/- The end of input has no bytes. -/
theorem hasPoint_reportAtEnd
    (c : Cursor)
    (d : Diagnostic) :
    (c.reportAtEnd d).HasPoint := by
  refine ⟨d.place
    { start := c.lastSpan.stop, stop := c.lastSpan.stop }
    (c.lastLocation.advance c.lastSpan.length), ?_, ?_⟩
  · simp [reportAtEnd, report]
  · simp [Diagnostic.isPoint, Diagnostic.place, Span.isEmpty,
      Span.length]

end Cursor

/- Runs over a text that goes on for the right one. -/
def Simulation.continued
    (p : Position)
    (more : List Char) : Simulation where
  toMatching := .same
  cursor := Cursor.Continued p more
  ended := Cursor.EndedBefore p more
  lost := Cursor.HasPoint
  depth_eq h := h.depth_eq
  stop h := by rw [h.lastSpan_eq]; rfl
  peek h := h.peek
  next h := by
    rcases h.next with
      ⟨t, d, d', hLeft, hRight, hBoth⟩ | ⟨d, hLeft, hRight⟩
    · rw [hLeft, hRight]
      exact .both rfl hBoth
    · rw [hLeft]
      exact .left (Cursor.hasPoint_reportAtEnd d)
  reportAt d _ h hToken := by
    subst hToken
    exact h.report _
  reportAtEnd d _ h := h.reportAtEnd d
  ended_next h := by rw [Cursor.next_of_peek_none h.peek]
  lost_of_ended d _ := Cursor.hasPoint_reportAtEnd _ d
  lost_mono hReaches hLost := by
    obtain ⟨x, hx, hPoint⟩ := hLost
    exact ⟨x, hReaches.mem_diagnostics hx, hPoint⟩

------------------------------------------------------------
-- Where the Rest Begins
------------------------------------------------------------

/- How far a text moves what follows it and a line feed. -/
def Shift.past (text : String) : Shift :=
  { bytes := text.utf8ByteSize + 1,
    lines := text.toList.count '\n' + 1 }

namespace Position

/- After a line feed the first column is the first again. -/
theorem step_after
    (text : String) :
    (first.after text.toList).step '\n'
      = first.shift (.past text) := by
  have hOffset := offset_after first text.toList
  have hLine := line_after first text.toList
  rw [String.ofList_toList] at hOffset
  simp only [step, shift, Location.step, Location.shift,
    hOffset, hLine, Shift.past]
  rfl

end Position

namespace Lexer

/- What follows a text is lexed as a text that is moved. -/
theorem resume_eq
    (a b : String) :
    resume (Position.first.after a.toList) b.toList
      = (ofSource b).shift (.past a) := by
  rw [resume, Position.step_after]
  rfl

theorem head?_tokens_shift
    (k : Shift)
    (l : Lexer) :
    (l.shift k).tokens.head?
      = l.tokens.head?.map (Token.shift k) := by
  have hLeft := TokenSource.next_fst (.script l)
  have hRight := TokenSource.next_fst (.script (l.shift k))
  simp only [TokenSource.next, TokenSource.tokens, next_shift]
    at hLeft hRight
  rw [← hLeft, ← hRight]

end Lexer

/-
  Before a keyword, and before nothing at all, a registry
  reads a text that goes on as it does without.
-/
theorem Simulation.registries_continued
    {r : Registry}
    {p : Position}
    {more : List Char}
    (hPlain : r.Plain)
    (hFirst :
      ∀ t, (Lexer.resume p more).tokens.head? = some t →
        t.kind = .ident ∧ r.contains t.text = true) :
    (continued p more).Registries
      (continued p more).SameOutcome r r := by
  have hHead :
      ∀ {c c' : Cursor} {t : Token},
        c.EndedBefore p more c' →
          c'.peek.1 = some t →
            t.kind = .ident ∧ r.contains t.text = true := by
    intro c c' t hEnded hPeek
    have hPeeked : c.peeked = none := by
      have hSame := Cursor.peek_peeked c
      rwa [hEnded.peek] at hSame
    rw [hEnded.rest, Cursor.peek_peek, Cursor.peek_fst] at hPeek
    refine hFirst t ?_
    rw [← hPeek]
    simp only [Cursor.tokens, Cursor.resumed, hPeeked]
    rfl
  refine ⟨.failed, fun _ _ => sameKind_refl hPlain, ?_, ?_⟩
  · intro c c' hEnded
    refine ⟨?_, fun t hPeek => (hHead hEnded hPeek).1⟩
    rw [hEnded.rest, Cursor.peek_peek]
  · intro c c' t hEnded hPeek
    exact (hHead hEnded hPeek).2

------------------------------------------------------------
-- Scripts One after the Other
------------------------------------------------------------

/- What is read depends on the tokens to come only. -/
theorem Registry.readItems_of_next_eq
    {r : Registry}
    {c c' : Cursor}
    (blocks : List Block)
    (hNext : c.next = c'.next) :
    r.readItems blocks c = r.readItems blocks c' := by
  rcases hFound : c.next with ⟨_ | t, d⟩
  · have hFound' := hNext.symm.trans hFound
    rw [Registry.readItems_of_none r _ hFound,
      Registry.readItems_of_none r _ hFound']
  · have hFound' := hNext.symm.trans hFound
    rw [Registry.readItems_of_some r _ hFound,
      Registry.readItems_of_some r _ hFound']

namespace Script

/- Two scripts one after the other. -/
def append (s s' : Script) : Script :=
  { blocks := s.blocks ++ s'.blocks,
    diagnostics := s.diagnostics ++ s'.diagnostics }

/-
  A script without problems in its tokens is lexed without
  problems.
-/
theorem problems_eq_nil
    {r : Registry}
    {source : String}
    (hLexed :
      ∀ d ∈ (parse r source).diagnostics,
        d.kind ≠ .unterminatedString
          ∧ d.kind ≠ .unterminatedComment) :
    (Lexer.ofSource source).problems = [] := by
  apply List.eq_nil_iff_forall_not_mem.mpr
  intro x hx
  obtain ⟨d, hReaches, hNext⟩ :=
    r.readItems_ended [] (.ofSource source)
  obtain ⟨-, -, hNone, hFinish⟩ := Cursor.found_of_ended hNext
  have hFound : x ∈ d.next.2.found := by
    refine hReaches.next.mem_found ?_
    exact List.mem_append_right _ hx
  rw [hNext, Cursor.found, hNone, List.append_nil,
    ← hFinish] at hFound
  have hKind := hLexed x hFound
  rcases Lexer.kind_of_problems _ x hx with hBefore | h | h
  · simp [Lexer.ofSource] at hBefore
  · exact hKind.1 h
  · exact hKind.2 h

/-
  What follows a text whose end has been reached is read as
  it is by itself.
-/
theorem ofCursor_resumed
    {r : Registry}
    {d e : Cursor}
    (a b : String)
    (hPlain : r.Plain)
    (hNext : d.next = (none, e))
    (hDepth : e.depth = 0) :
    ofCursor r
        (e.resumed (Position.first.after a.toList) b.toList)
      = { blocks := ((parse r b).shift (.past a)).blocks,
          diagnostics :=
            e.finish
              ++ ((parse r b).shift (.past a)).diagnostics } := by
  obtain ⟨hPeeked, -, -, hFinish⟩ := Cursor.found_of_ended hNext
  have hShifted :
      (Cursor.ofSource b).Shifted (.past a)
        e.diagnostics.toList
        ((e.resumed (Position.first.after a.toList)
          b.toList).withLast
            (Span.shift (.past a) { start := 0, stop := 0 })
            (Location.first.shift (.past a))) := by
    refine ⟨⟨.ofSource b, rfl, ?_⟩, hPeeked, hDepth, rfl, rfl, ?_⟩
    · rw [← Lexer.resume_eq]
      rfl
    · simp [Cursor.ofSource, Cursor.withLast, Cursor.resumed]
  have hScript := ofCursor_shifted hPlain hShifted
  rw [ofCursor_withLast] at hScript
  rw [hScript, hFinish]
  rfl

/-
  What is complete, however broken, neither hides nor alters
  anything after it.
-/
theorem parse_append
    (r : Registry)
    (a b : String)
    (hPlain : r.Plain)
    (hLexed :
      ∀ d ∈ (parse r a).diagnostics,
        d.kind ≠ .unterminatedString
          ∧ d.kind ≠ .unterminatedComment)
    (hEnded :
      ∀ d ∈ (parse r a).diagnostics, d.isPoint = false)
    (hFirst :
      ∀ t, (tokenize b).1.head? = some t →
        t.kind = .ident ∧ r.contains t.text = true) :
    parse r (a ++ "\n" ++ b)
      = (parse r a).append ((parse r b).shift (.past a)) := by
  have hStart :
      (Cursor.ofSource a).Continued
        (Position.first.after a.toList) b.toList
        (.ofSource (a ++ "\n" ++ b)) := by
    refine ⟨.ofSource a, rfl, problems_eq_nil hLexed, rfl, ?_⟩
    simp [Cursor.ofSource, Lexer.ofSource, Lexer.followedBy]
  have hKeyword :
      ∀ t,
        (Lexer.resume (Position.first.after a.toList)
            b.toList).tokens.head? = some t →
          t.kind = .ident ∧ r.contains t.text = true := by
    intro t hHead
    rw [Lexer.resume_eq, Lexer.head?_tokens_shift,
      Option.map_eq_some_iff] at hHead
    obtain ⟨s, hHead, rfl⟩ := hHead
    exact hFirst s hHead
  have hRegistries :=
    Simulation.registries_continued hPlain hKeyword
  have hReaches :=
    Registry.reaches_readItems r [] (.ofSource a)
  have hOpen := hReaches.endDepth_eq
  rw [endDepth_eq_zero hPlain hEnded] at hOpen
  rcases Simulation.readItems hRegistries .nil (.inl hStart) with
    ⟨x, hx, hPoint⟩ | ⟨done, d, d', hNext, hRuns, hRest, hBlocks⟩
  · -- The end of input was not reported.
    have hMember : x ∈ (parse r a).diagnostics := by
      simp only [parse, ofCursor, Cursor.finish,
        Array.toList_appendList]
      exact List.mem_append_left _ hx
    rw [hEnded x hMember] at hPoint
    simp at hPoint
  · have hDone :=
      Simulation.blocks_shift (k := .none)
        (fun _ _ h => Eq.symm h) hBlocks
    rw [funext Block.shift_none, List.map_id'] at hDone
    obtain ⟨-, hTokens, -, -⟩ := Cursor.found_of_ended hNext
    have hDepth :
        (r.readItems [] (.ofSource a)).2.depth = 0 := by
      rwa [Cursor.endDepth, hTokens] at hOpen
    have hThere := ofCursor_resumed a b hPlain hNext hDepth
    have hOn :
        d'.next
          = ((r.readItems [] (.ofSource a)).2.resumed
              (Position.first.after a.toList) b.toList).next := by
      rcases hRuns with hContinued | hBefore
      · rcases hContinued.next with
          ⟨t, e, e', hLeft, -, -⟩ | ⟨e, hLeft, hRight⟩
        · simp [hNext] at hLeft
        · rw [hNext, Prod.mk.injEq] at hLeft
          rw [hRight, hLeft.2]
      · have hLast := Cursor.next_of_peek_none hBefore.peek
        rw [hNext, Prod.mk.injEq] at hLast
        rw [hBefore.rest, Cursor.next_peek, hLast.2]
    have hReads := Registry.readItems_of_next_eq (r := r) done hOn
    rw [← hRest, ← List.nil_append done,
      Registry.readItems_blocks, hDone] at hReads
    simp only [ofCursor, mk.injEq] at hThere
    simp only [parse, ofCursor, append] at *
    simp only [hReads, hThere]

/- A brace that closes nothing. -/
def strayBrace : Token :=
  { kind := .rBrace,
    text := "\x7d",
    span := { start := 0, stop := 1 },
    location := Location.first }

theorem diagnostics_strayBrace
    (r : Registry) :
    (parse r "\x7d").diagnostics
      = [(Diagnostic.ofProblem (.strayToken strayBrace)).placeAt
          strayBrace] := by
  have hLayout :
      splitLayout [] (Lexer.ofSource "\x7d").rest
        = ([], ['\x7d']) :=
    splitLayout_of_none [] rfl
  have hLexed :
      (Lexer.ofSource "\x7d").next
        = (some strayBrace,
            { rest := [],
              position := Position.first.after ['\x7d'],
              pending := [] }) := by
    unfold Lexer.next
    rw [hLayout]
    rfl
  have hNext :=
    Cursor.next_of_pull (c := .ofSource "\x7d") rfl
      (Cursor.pull_of_next rfl hLexed rfl)
  have hIdent : ¬ strayBrace.kind = .ident := by decide
  have hLeft : ¬ strayBrace.kind = .lBrace := by decide
  simp only [parse, ofCursor,
    Registry.readItems_of_some r [] hNext, Option.elim_some,
    Registry.readItem, if_neg hIdent, Registry.passStrayFrom,
    if_neg hLeft]
  rw [Cursor.passStray_eq,
    Cursor.peek_of_rest_nil rfl rfl rfl rfl]
  simp only
  rw [Registry.readItems_of_none r _
    (Cursor.next_of_peek_none
      (Cursor.peek_of_rest_nil rfl rfl rfl rfl))]
  rfl

/- A brace that closes nothing does not hide a keyword. -/
theorem parse_append_strayBrace :
    Registry.standard.Plain
      ∧ parse .standard ("\x7d" ++ "\n" ++ "salary")
          = (parse .standard "\x7d").append
              ((parse .standard "salary").shift
                (.past "\x7d")) := by
  have hLayout :
      splitLayout [] (Lexer.ofSource "salary").rest
        = ([], "salary".toList) :=
    splitLayout_of_none [] rfl
  refine ⟨by decide, parse_append .standard _ _ (by decide)
    ?_ ?_ ?_⟩
  · rw [diagnostics_strayBrace]
    simp [Problem.kind]
  · rw [diagnostics_strayBrace]
    simp [Diagnostic.isPoint, Diagnostic.placeAt,
      Diagnostic.place, strayBrace, Span.isEmpty, Span.length]
  · intro t hHead
    have hFirst :=
      TokenSource.next_fst (.script (.ofSource "salary"))
    have hWord :
        (Lexer.ofSource "salary").next.1
          = some
              { kind := .ident,
                text := "salary",
                span := { start := 0, stop := 6 },
                location := Location.first } := by
      unfold Lexer.next
      rw [hLayout]
      rfl
    have hToken := (hFirst.trans hHead).symm.trans hWord
    rw [Option.some.injEq] at hToken
    subst hToken
    decide

end Script
end BlockScript
