import BlockScript.Body.Steps
import BlockScript.Proofs.Concatenation
import BlockScript.Proofs.Reporting
import BlockScript.Proofs.Tiling

/-
  This file shows that a block ends after its closing brace
  wherever its body stops, as long as the body does not read
  on after that brace. What is left of the block is passed
  over, and nothing is reported but that a body is malformed.

  Key definitions include:
    * `Body.StaysBefore`
    * `Header.malformation`
    * `Header.Realigns`

  Key theorems include:
    * `splitClose_of_taken`
    * `Cursor.skipToClose_of_reaches`
    * `Cursor.diagnostics_skipToClose`
    * `Body.staysBefore_of_plain`
    * `Header.realigns_of_staysBefore`
    * `Header.readBlock_realigns`
-/

namespace BlockScript

------------------------------------------------------------
-- The Rest of a Group
------------------------------------------------------------

/-
  As long as the token that closes a body is still to come,
  the body is open, and the same token closes it.
-/
theorem splitClose_of_taken
    {bodyDepth depth : Nat}
    {taken ts front back : List Token}
    (hOpen : bodyDepth ≤ depth)
    (hSome : front ≠ [])
    (hSplit :
      splitClose bodyDepth depth (taken ++ ts)
        = some (taken ++ front, back)) :
    bodyDepth
        ≤ taken.foldl
            (fun d t => Cursor.depthAfter d t.kind) depth
      ∧ splitClose bodyDepth
            (taken.foldl
              (fun d t => Cursor.depthAfter d t.kind) depth) ts
          = some (front, back) := by
  induction taken generalizing depth with
  | nil => exact ⟨hOpen, hSplit⟩
  | cons t taken ih =>
      by_cases hAfter :
          bodyDepth ≤ Cursor.depthAfter depth t.kind
      · obtain ⟨first, hFirst, hRest⟩ :=
          splitClose_cons hAfter hSplit
        rw [List.cons_append, List.cons.injEq] at hFirst
        rw [← hFirst.2] at hRest
        exact ih hAfter hRest
      · rw [List.cons_append, splitClose] at hSplit
        simp only [Nat.lt_of_not_le hAfter, if_true,
          Option.some.injEq, Prod.mk.injEq, List.cons_append,
          List.cons.injEq, true_and] at hSplit
        have hNil := List.append_eq_nil_iff.mp hSplit.1.symm
        exact absurd hNil.2 hSome

namespace Cursor

/- The nesting after a group is the one before it. -/
theorem depth_after_group
    {depth : Nat}
    {inner : List Token}
    {r : Token}
    (hInner : Balanced inner)
    (hRight : r.kind = .rBrace) :
    (inner ++ [r]).foldl (fun d t => depthAfter d t.kind) depth
      = depth - 1 := by
  rw [List.foldl_append, hInner.depth_eq]
  simp [depthAfter, hRight]

/-
  Wherever a cursor has got to in a group, up to its closing
  brace, a skip leads to the end of the group.
-/
theorem skipToClose_of_reaches
    {c d : Cursor}
    {inner rest : List Token}
    {r : Token}
    (hPositive : 0 < c.depth)
    (hInner : Balanced inner)
    (hRight : r.kind = .rBrace)
    (hTokens : c.tokens = inner ++ r :: rest)
    (hReaches : c.Reaches d)
    (hRest : rest <:+ d.tokens) :
    ∃ (e : Cursor) (left : List Token),
      d.skipToClose c.depth = (true, e)
        ∧ d.tokens = left ++ e.tokens
        ∧ (∀ t ∈ left.getLast?, t = r)
        ∧ e.tokens = rest
        ∧ e.depth = c.depth - 1
        ∧ e.lastSpan = r.span := by
  obtain ⟨taken, reported, hTakes⟩ := hReaches.takes
  obtain ⟨left, hLeft⟩ := hRest
  have hGroup : inner ++ [r] = taken ++ left := by
    rw [← List.append_cancel_right_eq _ rest,
      List.append_assoc taken, hLeft, ← hTakes.tokens, hTokens,
      List.append_assoc]
    rfl
  obtain ⟨e, hSkip, hMore, hAfter⟩ :
      ∃ e,
        d.skipToClose c.depth = (true, e)
          ∧ d.Takes left [] e
          ∧ e.tokens = rest := by
    by_cases hNil : left = []
    · -- The body has taken the closing brace itself.
      subst hNil
      have hDepth : d.depth = c.depth - 1 := by
        rw [hTakes.depth, ← List.append_nil taken, ← hGroup,
          depth_after_group hInner hRight]
      have hClosed : d.depth < c.depth := by omega
      exact ⟨d, skipToClose_of_closed (.inr hClosed), .refl d,
        hLeft.symm⟩
    · have hSplit :=
        splitClose_closed rest hPositive hInner hRight
      rw [← hTokens, hTakes.tokens, hGroup] at hSplit
      obtain ⟨hOpen, hSplit⟩ :=
        splitClose_of_taken (Nat.le_refl _) hNil hSplit
      rw [← hTakes.depth] at hOpen hSplit
      rcases takes_skipToClose hPositive hOpen with
        ⟨front, e, hSkip, hFront, hMore, -⟩ | ⟨e, -, hNone, -⟩
      · rw [hSplit, Option.some.injEq, Prod.mk.injEq] at hFront
        rw [← hFront.1] at hMore
        exact ⟨e, hSkip, hMore, hFront.2.symm⟩
      · rw [hSplit] at hNone
        simp at hNone
  have hAll := hTakes.trans hMore
  rw [← hGroup] at hAll
  refine ⟨e, left, hSkip, hMore.tokens, ?_, hAfter, ?_, ?_⟩
  · intro t ht
    have hLast := List.getLast?_append_of_ne_nil taken
      (List.ne_nil_of_mem (List.mem_of_mem_getLast? ht))
    rw [← hGroup, List.getLast?_concat] at hLast
    rw [Option.mem_def.mp ht] at hLast
    exact (Option.some.inj hLast).symm
  · rw [hAll.depth, depth_after_group hInner hRight]
  · rw [hAll.lastSpan, List.foldl_append]
    rfl

end Cursor

------------------------------------------------------------
-- Problems Come at the End
------------------------------------------------------------

/- Only a string at the very end of a text is not closed. -/
theorem Lexer.pending_of_next
    {l m : Lexer}
    {t : Token}
    (hNext : l.next = (some t, m))
    (hMore : t.kind ≠ .str ∨ m.rest ≠ []) :
    m.pending = l.pending := by
  rcases gap_of_splitLayout [] l.rest with
    ⟨gap, rest, hSplit, -, -, hNone⟩
  rw [List.reverse_nil, List.nil_append] at hSplit
  cases rest with
  | nil =>
      rw [next_of_gap hSplit] at hNext
      simp at hNext
  | cons c tail =>
      rcases hComment : startsComment (c :: tail) with _ | _
      · have hBlank : Text.isBlank c = false := by
          rw [Bool.eq_false_iff]
          intro hBlank
          simp [layoutPiece?_blank tail hBlank] at hNone
        rcases writes_of_lexeme hBlank hComment with
          ⟨source, rest, x, hLexeme, -, -⟩ | ⟨text, -, hLexeme, -⟩
        · obtain ⟨m', hNext', -, -, hPending⟩ :=
            next_of_closed hSplit hComment hLexeme
          rw [hNext, Prod.mk.injEq] at hNext'
          rw [hNext'.2, hPending]
        · obtain ⟨m', hNext', hRest, -⟩ :=
            next_of_unclosed hSplit hComment hLexeme
          rw [hNext, Prod.mk.injEq, Option.some.injEq] at hNext'
          rcases hMore with hKind | hRest'
          · exact absurd (by rw [hNext'.1]; rfl) hKind
          · exact absurd (by rw [hNext'.2, hRest]) hRest'
      · obtain ⟨m', hNext', -⟩ := next_of_comment hSplit hComment
        rw [hNext] at hNext'
        simp at hNext'

namespace TokenSource

@[simp]
theorem drain_drain
    (s : TokenSource) :
    s.drain.2.drain.1 = [] := by
  cases s <;> rfl

/-
  No problem waits to be taken, and a supply brings none with
  its tokens. With a script one may come at the very end.
-/
def IsQuiet : TokenSource → Prop
  | script l => l.pending = []
  | listed _ => True
  | supplied ds rest _ => ds = [] ∧ ∀ x ∈ rest, x.2 = []

theorem IsQuiet.pull
    {s : TokenSource}
    (hQuiet : s.IsQuiet) :
    s.next.2.drain.2.IsQuiet := by
  cases s with
  | script l => rfl
  | listed ts => cases ts <;> trivial
  | supplied ds rest closing =>
      cases rest with
      | nil => exact ⟨rfl, by simp⟩
      | cons x rest =>
          exact ⟨rfl, fun y hy => hQuiet.2 y (.tail x hy)⟩

/- No problem comes with a token before others. -/
theorem IsQuiet.drain_of_next
    {s : TokenSource}
    {t : Token}
    (hQuiet : s.IsQuiet)
    (hNext : s.next.1 = some t)
    (hMore : t.kind ≠ .str ∨ s.next.2.tokens ≠ []) :
    s.next.2.drain.1 = [] := by
  cases s with
  | script l =>
      rcases hLexer : l.next with ⟨found, m⟩
      simp only [next, hLexer, tokens] at hNext hMore ⊢
      subst hNext
      have hRest : t.kind ≠ .str ∨ m.rest ≠ [] := by
        refine hMore.imp_right fun hSome hNil => hSome ?_
        exact Lexer.tokens_of_none (Lexer.next_of_rest_nil hNil)
      have hPending := Lexer.pending_of_next hLexer hRest
      exact hPending.trans hQuiet
  | listed ts => cases ts <;> rfl
  | supplied ds rest closing =>
      cases rest with
      | nil => simp [next] at hNext
      | cons x rest =>
          simp [next, drain, hQuiet.1, hQuiet.2 x (.head rest)]

end TokenSource

namespace Cursor

/- A token taken before others brings no problem. -/
theorem diagnostics_next
    {c d : Cursor}
    {t : Token}
    (hNext : c.next = (some t, d))
    (hQuiet : c.source.IsQuiet)
    (hMore : t.kind ≠ .str ∨ d.tokens ≠ []) :
    d.diagnostics = c.diagnostics ∧ d.source.IsQuiet := by
  rcases hPeeked : c.peeked with _ | s
  · rcases hPull : c.pull with ⟨found, e⟩
    rw [next_of_pull hPeeked hPull, Prod.mk.injEq] at hNext
    obtain ⟨rfl, rfl⟩ := hNext
    have hFirst : c.source.next.1 = some t :=
      congrArg Prod.fst hPull
    have hSource : e.source = c.source.next.2.drain.2 :=
      congrArg (fun x => x.2.source) hPull.symm
    have hDiagnostics :
        e.diagnostics
          = c.diagnostics ++ c.source.next.2.drain.1 :=
      congrArg (fun x => x.2.diagnostics) hPull.symm
    have hTokens :
        (Option.elim (some t) e e.consume).tokens
          = c.source.next.2.tokens := by
      have hSame : e.peeked = none := by
        rw [← hPeeked, ← pull_peeked c, hPull]
      simp [tokens, consume, hSame, hSource]
    rw [hTokens] at hMore
    have hNone := hQuiet.drain_of_next hFirst hMore
    have hStill := hQuiet.pull
    rw [← hSource] at hStill
    refine ⟨?_, hStill⟩
    simp [consume, hDiagnostics, hNone]
  · simp only [next, hPeeked, Prod.mk.injEq] at hNext
    rw [← hNext.2]
    exact ⟨rfl, hQuiet⟩

/- A source that is drained stays so. -/
theorem Reaches.drained
    {c d : Cursor}
    (hDrained : c.source.drain.1 = [])
    (hReaches : c.Reaches d) :
    d.source.drain.1 = [] :=
  hReaches.source (P := fun s => s.drain.1 = [])
    (fun _ _ => TokenSource.drain_drain _) hDrained

/-
  A skip that stops before the end of a text, or at something
  that is no string, brings no problem. The induction is on
  the tokens that are skipped.
-/
theorem diagnostics_skipToClose
    {c e : Cursor}
    {bodyDepth : Nat}
    {left : List Token}
    (hSkip : c.skipToClose bodyDepth = (true, e))
    (hTokens : c.tokens = left ++ e.tokens)
    (hLast : ∀ t ∈ left.getLast?, t.kind ≠ .str)
    (hQuiet : c.source.IsQuiet) :
    e.diagnostics = c.diagnostics := by
  fun_induction skipToClose c bodyDepth generalizing left with
  | case1 c _ =>
      obtain rfl : c = e := congrArg Prod.snd hSkip
      rfl
  | case2 c _ d hNext => simp at hSkip
  | case3 c _ t d hNext ih =>
      have hHead : c.tokens.head? = some t := by
        rw [← c.next_fst, hNext]
      have hTail : d.tokens = c.tokens.tail := by
        rw [← c.tokens_next, hNext]
      have hReaches := d.reaches_skipToClose bodyDepth
      rw [hSkip] at hReaches
      obtain ⟨taken, reported, hTakes⟩ :
          ∃ taken reported, d.Takes taken reported e :=
        hReaches.takes
      cases left with
      | nil =>
          -- The token taken is not among those left.
          have hLength := congrArg List.length hTakes.tokens
          rw [hTail, hTokens, List.nil_append,
            List.length_append, List.length_tail] at hLength
          have hSome : e.tokens ≠ [] := by
            rintro hNil
            simp [hTokens, hNil] at hHead
          have hPositive := List.length_pos_iff.mpr hSome
          omega
      | cons s left =>
          rw [hTokens] at hHead hTail
          obtain rfl : s = t := by simpa using hHead
          have hMore : s.kind ≠ .str ∨ d.tokens ≠ [] := by
            cases left with
            | nil => exact .inl (hLast s rfl)
            | cons u left => exact .inr (by simp [hTail])
          obtain ⟨hSame, hStill⟩ :=
            diagnostics_next hNext hQuiet hMore
          rw [ih hSkip hTail ?_ hStill, hSame]
          intro u hu
          apply hLast
          rw [List.getLast?_cons, Option.mem_def.mp hu]
          rfl

end Cursor

------------------------------------------------------------
-- Bodies That Stay in Their Block
------------------------------------------------------------

/-
  A body that takes no token of `rest`, which comes after its
  block, and does not say that input has ended.
-/
structure Body.StaysBefore
    (body : Body)
    (h : Header)
    (c : Cursor)
    (rest : List Token) : Prop where
  tokens : rest <:+ (body.read h c).2.tokens
  result : (body.read h c).1 ≠ .error .unexpectedEof

/-
  Tables and bodies without structure stay in their block:
  they never stop where a skip would not find its brace.
-/
theorem Body.staysBefore_of_plain
    {body : Body}
    {c : Cursor}
    {inner rest : List Token}
    {r : Token}
    (h : Header)
    (hPlain : body.isCustom = false)
    (hPositive : 0 < c.depth)
    (hInner : Balanced inner)
    (hRight : r.kind = .rBrace)
    (hTokens : c.tokens = inner ++ r :: rest) :
    body.StaysBefore h c rest := by
  obtain ⟨e, left, hSkip, -, -, hRest, -⟩ :=
    Cursor.skipToClose_of_reaches hPositive hInner hRight
      hTokens .refl (hTokens ▸ ⟨inner ++ [r], by simp⟩)
  have hSuffix :
      ∀ d : Cursor,
        d.skipToClose c.depth = c.skipToClose c.depth →
          rest <:+ d.tokens := by
    intro d hSame
    have hReaches := d.reaches_skipToClose c.depth
    rw [hSame, hSkip] at hReaches
    obtain ⟨taken, reported, hTakes⟩ := hReaches.takes
    exact ⟨taken, by rw [hTakes.tokens, hRest]⟩
  cases body with
  | unstructured =>
      refine ⟨?_, ?_⟩
      · simp only [read, hSkip, hRest]
        exact List.suffix_refl _
      · simp [read, hSkip]
  | table t =>
      have hStays := t.stays_readFields [] hPositive
      have hRead :
          (Body.table t).read h c = t.readFields [] c :=
        rfl
      generalize t.readFields [] c = x at hStays hRead
      cases hStays with
      | ok hSame _ =>
          exact ⟨by rw [hRead]; exact hSuffix _ hSame,
            by simp [hRead]⟩
      | malformed hSame =>
          exact ⟨by rw [hRead]; exact hSuffix _ hSame,
            by simp [hRead, BodyError.blame]⟩
      | eof hNone =>
          rw [hSkip] at hNone
          simp at hNone
  | custom g => simp [isCustom] at hPlain

------------------------------------------------------------
-- Blocks
------------------------------------------------------------

namespace Header

/- What is reported about a malformed body. -/
def malformation
    (h : Header)
    (cause : Malformation)
    (blamed : Option Token) : Diagnostic :=
  let d :=
    Diagnostic.ofProblem (.malformedBody h.keyword cause.message)
  blamed.elim d d.placeAt

@[simp]
theorem kind_malformation
    (h : Header)
    (cause : Malformation)
    (blamed : Option Token) :
    (h.malformation cause blamed).kind = .malformedBody := by
  cases blamed <;> rfl

theorem reportMalformed_eq
    (h : Header)
    (cause : Malformation)
    (blamed : Option Token)
    (c : Cursor) :
    h.reportMalformed cause blamed c
      = c.report (h.malformation cause blamed) := by
  cases blamed <;> rfl

/-
  How a block with the closing brace `r` before `rest` ends,
  once its body has been read from `c`. The block is over, it
  is read or failed as its body was, and only a malformed
  body is reported, once. Keyword, name and start are those
  of the header that the body leaves. Problems of the source
  may follow, but none from a list, and none from a script if
  there was none waiting before.
-/
structure Realigns
    (h : Header)
    (body : Body)
    (c : Cursor)
    (r : Token)
    (rest : List Token) : Prop where
  tokens : (h.readBlock body c).2.tokens = rest
  depth : (h.readBlock body c).2.depth = c.depth - 1
  header :
    (h.readBlock body c).1.header
      = { body.header h c with
          span :=
            { start := (body.header h c).span.start,
              stop := r.span.stop } }
  reports :
    ∃ lexed,
      (body.read h c).2.source.problems
          = lexed ++ (h.readBlock body c).2.source.problems
        ∧ (c.source.IsQuiet → lexed = [])
        ∧ (∀ fields,
            (body.read h c).1 = .ok fields →
              (h.readBlock body c).1.outcome = .parsed fields
                ∧ (h.readBlock body c).2.diagnostics.toList
                    = (body.read h c).2.diagnostics.toList
                        ++ lexed)
        ∧ ∀ cause blamed,
            (body.read h c).1
                = .error (.malformed cause blamed) →
              (h.readBlock body c).1.outcome = .failed
                ∧ (h.readBlock body c).2.diagnostics.toList
                    = (body.read h c).2.diagnostics.toList
                        ++ (body.header h c).malformation cause
                            blamed
                          :: lexed

end Header

/-
  From anywhere in a group a block is closed after the brace
  of the group, with nothing reported.
-/
theorem Cursor.close_of_reaches
    {c d : Cursor}
    {inner rest : List Token}
    {r : Token}
    (hPositive : 0 < c.depth)
    (hInner : Balanced inner)
    (hRight : r.kind = .rBrace)
    (hTokens : c.tokens = inner ++ r :: rest)
    (hReaches : c.Reaches d)
    (hRest : rest <:+ d.tokens) :
    ∃ (e : Cursor) (lexed : List Diagnostic),
      d.skipToClose c.depth = (true, e)
        ∧ e.tokens = rest
        ∧ e.depth = c.depth - 1
        ∧ e.lastSpan = r.span
        ∧ d.source.problems = lexed ++ e.source.problems
        ∧ e.diagnostics.toList = d.diagnostics.toList ++ lexed
        ∧ (c.source.IsQuiet → lexed = []) := by
  obtain ⟨e, left, hSkip, hLeft, hLast, hAfter, hDepth, hSpan⟩ :=
    skipToClose_of_reaches hPositive hInner hRight hTokens
      hReaches hRest
  obtain ⟨lexed, hNew, hBrought⟩ :=
    (Logs.of_skipToClose hSkip).brought
  refine ⟨e, lexed, hSkip, hAfter, hDepth, hSpan,
    hBrought.symm, hNew, ?_⟩
  intro hQuiet
  have hSame :=
    diagnostics_skipToClose hSkip hLeft
      (by intro t ht; simp [hLast t ht, hRight])
      (hReaches.source (fun _ => TokenSource.IsQuiet.pull)
        hQuiet)
  rw [hSame] at hNew
  exact List.self_eq_append_right.mp hNew

namespace Header

/-
  Wherever a body stops in its block, what is left of the
  block is passed over. The cases are those of what the body
  says, of which the end of input is not one.
-/
theorem realigns_of_staysBefore
    {body : Body}
    {c : Cursor}
    {inner rest : List Token}
    {r : Token}
    (h : Header)
    (hPositive : 0 < c.depth)
    (hInner : Balanced inner)
    (hRight : r.kind = .rBrace)
    (hTokens : c.tokens = inner ++ r :: rest)
    (hStays : body.StaysBefore h c rest) :
    h.Realigns body c r rest := by
  have hReaches := body.reaches_read h c
  have hSuffix := hStays.tokens
  have hResult := hStays.result
  rcases hRead : body.read h c with
    ⟨(⟨cause, blamed⟩ | _) | fields, d⟩
  · rw [hRead] at hReaches hSuffix
    obtain ⟨e, lexed, hSkip, hAfter, hDepth, hSpan, hProblems,
      hNew, hNone⟩ :=
      Cursor.close_of_reaches hPositive hInner hRight hTokens
        (hReaches.report
          ((body.header h c).malformation cause blamed))
        hSuffix
    have hBlock :
        h.readBlock body c
          = ((body.header h c).close .failed e, e) := by
      simp only [readBlock, hRead, finish, reportMalformed_eq,
        hSkip]
    refine ⟨?_, ?_, ?_, lexed, ?_, hNone, ?_, ?_⟩
    · rw [hBlock, hAfter]
    · rw [hBlock, hDepth]
    · simp only [hBlock, close, Block.header, hSpan]
    · rw [hBlock, hRead]
      exact hProblems
    · simp [hRead]
    · intro cause' blamed' hSame
      simp only [hRead, Except.error.injEq,
        BodyError.malformed.injEq] at hSame
      obtain ⟨rfl, rfl⟩ := hSame
      refine ⟨by rw [hBlock]; rfl, ?_⟩
      rw [hBlock, hRead]
      simpa [Cursor.report] using hNew
  · exact absurd (by rw [hRead]) hResult
  · rw [hRead] at hReaches hSuffix
    obtain ⟨e, lexed, hSkip, hAfter, hDepth, hSpan, hProblems,
      hNew, hNone⟩ :=
      Cursor.close_of_reaches hPositive hInner hRight hTokens
        hReaches hSuffix
    have hBlock :
        h.readBlock body c
          = ((body.header h c).close (.parsed fields) e, e) := by
      simp only [readBlock, hRead, finish, hSkip]
    refine ⟨?_, ?_, ?_, lexed, ?_, hNone, ?_, ?_⟩
    · rw [hBlock, hAfter]
    · rw [hBlock, hDepth]
    · simp only [hBlock, close, Block.header, hSpan]
    · rw [hBlock, hRead]
      exact hProblems
    · intro fields' hSame
      simp only [hRead, Except.ok.injEq] at hSame
      subst hSame
      refine ⟨by rw [hBlock]; rfl, ?_⟩
      rw [hBlock, hRead]
      exact hNew
    · simp [hRead]

/-
  A body may stop anywhere in its block, or after it: what is
  left of the block is passed over, and reading goes on right
  after the closing brace. Tables and bodies without
  structure always stop in their block, and leave its header
  as it was.
-/
theorem readBlock_realigns
    (h : Header)
    (c : Cursor)
    (inner rest : List Token)
    (r : Token)
    (hPositive : 0 < c.depth)
    (hInner : Balanced inner)
    (hRight : r.kind = .rBrace)
    (hTokens : c.tokens = inner ++ r :: rest) :
    (∀ body : Body,
      body.StaysBefore h c rest → h.Realigns body c r rest)
    ∧ ∀ body : Body,
        body.isCustom = false →
          body.StaysBefore h c rest ∧ body.header h c = h := by
  refine ⟨?_, ?_⟩
  · intro body hStays
    exact h.realigns_of_staysBefore hPositive hInner hRight
      hTokens hStays
  · intro body hPlain
    exact ⟨body.staysBefore_of_plain h hPlain hPositive hInner
      hRight hTokens, Body.keepsHeader_of_plain hPlain h c⟩

/- A token of one character in the first line of a text. -/
def mark
    (kind : TokenKind)
    (text : String)
    (start : Nat) : Token :=
  { kind,
    text,
    span := { start, stop := start + 1 },
    location := { line := 1, column := start + 1 } }

/- A word and a group in braces. -/
def markedGroup : List Token :=
  [ mark .ident "a" 2, mark .lBrace "\x7b" 4, mark .ident "b" 6,
    mark .rBrace "\x7d" 8 ]

/- A body that gives up in the middle of the group. -/
theorem readBlock_realigns_steps :
    let h : Header :=
      { keyword := "k",
        name := none,
        span := { start := 0, stop := 1 } }
    let r := mark .rBrace "\x7d" 10
    let rest := [mark .ident "c" 12]
    let c : Cursor :=
      { source := .listed (markedGroup ++ r :: rest), depth := 1 }
    let body : Body :=
      .custom
        (Steps.grammar
          { count := 3,
            records := false,
            ending := .malformedAtLast "no" })
    0 < c.depth
      ∧ Balanced markedGroup
      ∧ body.StaysBefore h c rest
      ∧ h.Realigns body c r rest := by
  intro h r rest c body
  have hWord : Balanced [mark .ident "b" 6] :=
    .plain (by decide) (by decide) .nil
  have hInner : Balanced markedGroup :=
    .plain (by decide) (by decide) (.nested rfl hWord rfl .nil)
  have hStays : body.StaysBefore h c rest :=
    ⟨⟨[mark .rBrace "\x7d" 8, r], rfl⟩, nofun⟩
  refine ⟨Nat.one_pos, hInner, hStays, ?_⟩
  exact (readBlock_realigns h c markedGroup rest r Nat.one_pos
    hInner rfl rfl).1 body hStays

end Header
end BlockScript
