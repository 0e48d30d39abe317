import BlockScript.Proofs.Remaining

/-
  This file describes lexers and cursors by the problems with
  the text that they have met or are still to meet. Taking a
  token leaves these as they are, and none of them gets lost.

  Key definitions include:
    * `DiagnosticKind.isLexical`
    * `Lexer.problems`
    * `Cursor.found`

  Key theorems include:
    * `Lexer.problems_drain`
    * `Lexer.kind_of_problems`
    * `Cursor.found_next`
    * `Cursor.Reaches.source`
    * `Cursor.Reaches.mem_found`
-/

namespace BlockScript

------------------------------------------------------------
-- Problems with the Text
------------------------------------------------------------

/- Whether a kind is about the text and not about tokens. -/
def DiagnosticKind.isLexical : DiagnosticKind → Bool
  | unterminatedString | unterminatedComment => true
  | _ => false

------------------------------------------------------------
-- Problems to Come
------------------------------------------------------------

namespace Lexer

/-
  The problems that have not been taken, with those that will
  be met.
-/
def problems (l : Lexer) : List Diagnostic :=
  (l.collect []).2.pending

theorem problems_of_none
    {l m : Lexer}
    (hNext : l.next = (none, m)) :
    l.problems = m.pending := by
  rw [problems, collect_of_none _ hNext]

theorem problems_of_some
    {l m : Lexer}
    {t : Token}
    (hNext : l.next = (some t, m)) :
    l.problems = m.problems := by
  have hSplit := collect_append [] [t] m
  rw [List.nil_append] at hSplit
  rw [problems, collect_of_some _ hNext, hSplit]
  rfl

/- Problems that are taken do not come again. -/
theorem problems_drain
    (l : Lexer) :
    l.problems = l.pending ++ l.drain.2.problems := by
  generalize hSize : l.rest.length = n
  induction n using Nat.strongRecOn generalizing l with
  | ind n ih =>
      have hDrain := next_drain l
      rcases hNext : l.drain.2.next with ⟨_ | t, m⟩
      · rw [hNext] at hDrain
        rw [problems_of_none hNext, problems_of_none hDrain]
      · rw [hNext] at hDrain
        rw [problems_of_some hNext, problems_of_some hDrain]
        have hLt := next_length hNext
        rw [show l.drain.2.rest = l.rest from rfl, hSize] at hLt
        have hRight :=
          ih _ hLt { m with pending := l.pending ++ m.pending }
            rfl
        rw [hRight, ih _ hLt m rfl, ← List.append_assoc]
        rfl

/- Without problems to come there are none now. -/
theorem pending_of_problems
    {l : Lexer}
    (hProblems : l.problems = []) :
    l.pending = [] := by
  rw [problems_drain, List.append_eq_nil_iff] at hProblems
  exact hProblems.1

/- Problems are strings and comments that are not closed. -/
theorem kind_of_next
    {l m : Lexer}
    {found : Option Token}
    (hNext : l.next = (found, m)) :
    ∀ d ∈ m.pending,
      d ∈ l.pending
        ∨ d.kind = .unterminatedString
        ∨ d.kind = .unterminatedComment := by
  unfold next at hNext
  rcases hSplit : splitLayout [] l.rest with ⟨gap, _ | ⟨c, tail⟩⟩
  · simp only [hSplit, Prod.mk.injEq] at hNext
    rw [← hNext.2]
    intro d hd
    exact .inl hd
  · rcases hComment : startsComment (c :: tail) with _ | _
    · simp only [hSplit, hComment, Bool.false_eq_true, if_false,
        Prod.mk.injEq] at hNext
      rw [← hNext.2]
      unfold takeLexeme
      simp only
      split
      · intro d hd
        exact .inl hd
      · intro d hd
        simp only [complain, List.mem_append,
          List.mem_singleton] at hd
        rcases hd with hd | rfl
        · exact .inl hd
        · exact .inr (.inl rfl)
    · simp only [hSplit, hComment, if_true, Prod.mk.injEq] at hNext
      rw [← hNext.2]
      intro d hd
      simp only [complain, List.mem_append,
        List.mem_singleton] at hd
      rcases hd with hd | rfl
      · exact .inl hd
      · exact .inr (.inr rfl)

theorem kind_of_problems
    (l : Lexer) :
    ∀ d ∈ l.problems,
      d ∈ l.pending
        ∨ d.kind = .unterminatedString
        ∨ d.kind = .unterminatedComment := by
  generalize hSize : l.rest.length = n
  induction n using Nat.strongRecOn generalizing l with
  | ind n ih =>
      intro d hd
      rcases hNext : l.next with ⟨_ | t, m⟩
      · rw [problems_of_none hNext] at hd
        exact kind_of_next hNext d hd
      · rw [problems_of_some hNext] at hd
        have hLt := next_length hNext
        rcases ih _ (hSize ▸ hLt) m rfl d hd with hd | hKind
        · exact kind_of_next hNext d hd
        · exact .inr hKind

end Lexer

------------------------------------------------------------
-- Problems with Tokens Are Reported
------------------------------------------------------------

namespace TokenSource

/- The problems that a source has and will have. -/
def problems : TokenSource → List Diagnostic
  | script l => l.problems
  | listed _ => []
  | supplied ds rest closing =>
      ds ++ rest.flatMap Prod.snd ++ closing

theorem problems_next
    (s : TokenSource) :
    s.next.2.problems = s.problems := by
  cases s with
  | script l =>
      simp only [next, problems]
      rcases hNext : l.next with ⟨_ | t, m⟩
      · rw [Lexer.problems_of_none hNext,
          Lexer.problems_of_none (Lexer.next_of_ended hNext)]
      · rw [Lexer.problems_of_some hNext]
  | listed ts => cases ts <;> rfl
  | supplied ds rest closing =>
      cases rest with
      | nil => simp [next, problems]
      | cons x rest => simp [next, problems]

theorem problems_drain
    (s : TokenSource) :
    s.drain.1 ++ s.drain.2.problems = s.problems := by
  cases s with
  | script l => exact l.problems_drain.symm
  | listed ts => rfl
  | supplied ds rest closing => simp [drain, problems]

/- At its end a source has no problems to come. -/
theorem problems_of_ended
    {s : TokenSource}
    (hEnd : s.next.1 = none) :
    s.next.2.drain.2.problems = [] := by
  obtain ⟨hNext, hDrain⟩ := next_of_ended hEnd
  generalize s.next.2.drain.2 = e at hNext hDrain
  cases e with
  | script l =>
      rcases hFound : l.next with ⟨found, m⟩
      simp only [next, hFound, Prod.mk.injEq,
        script.injEq] at hNext
      obtain ⟨rfl, rfl⟩ := hNext
      simp only [drain, Lexer.drain, Prod.mk.injEq] at hDrain
      rw [problems, Lexer.problems_of_none hFound, hDrain.1]
  | listed ts => rfl
  | supplied ds rest closing =>
      rw [drain, Prod.mk.injEq] at hDrain
      cases rest with
      | nil =>
          rw [next, Prod.mk.injEq, supplied.injEq] at hNext
          simp [problems, hDrain.1, ← hNext.2.2.2]
      | cons x rest => simp [next] at hNext

end TokenSource

namespace Cursor

/- What has been reported, and the problems still to come. -/
def found (c : Cursor) : List Diagnostic :=
  c.diagnostics.toList ++ c.source.problems

theorem found_pull
    (c : Cursor) :
    c.pull.2.found = c.found := by
  simp only [pull, found, Array.toList_appendList,
    List.append_assoc, TokenSource.problems_drain,
    TokenSource.problems_next]

@[simp]
theorem found_peek
    (c : Cursor) :
    c.peek.2.found = c.found := by
  unfold peek
  split
  · rfl
  · exact c.found_pull

@[simp]
theorem found_next
    (c : Cursor) :
    c.next.2.found = c.found := by
  have hPull := c.found_pull
  unfold next
  split
  · rfl
  · split <;> rename_i hFound <;> rw [hFound] at hPull <;>
      exact hPull

/- A report adds itself to what was found. -/
theorem mem_found_report
    {c : Cursor}
    {x y : Diagnostic} :
    y ∈ (c.report x).found ↔ y ∈ c.found ∨ y = x := by
  simp only [found, report, Array.toList_push, List.mem_append,
    List.mem_singleton]
  exact or_right_comm

/-
  What holds of a source as long as tokens are pulled from it
  holds all the way.
-/
theorem Reaches.source
    {c d : Cursor}
    {P : TokenSource → Prop}
    (hPull : ∀ s, P s → P s.next.2.drain.2)
    (hStart : P c.source)
    (hReaches : c.Reaches d) :
    P d.source := by
  induction hReaches with
  | refl => exact hStart
  | @peek e _ ih =>
      unfold Cursor.peek
      split
      · exact ih
      · exact hPull _ ih
  | @next e _ ih =>
      have hPulled : P e.pull.2.source := hPull _ ih
      unfold Cursor.next
      split
      · exact ih
      · split <;> rename_i hFound <;>
          rw [hFound] at hPulled <;> exact hPulled
  | report _ _ ih => exact ih
  | checkEnd _ ih => exact ih

/- Nothing that was found gets lost. -/
theorem Reaches.mem_found
    {c d : Cursor}
    {x : Diagnostic}
    (hReaches : c.Reaches d)
    (hx : x ∈ c.found) :
    x ∈ d.found := by
  induction hReaches with
  | refl => exact hx
  | peek _ ih => rwa [found_peek]
  | next _ ih => rwa [found_next]
  | report y _ ih => exact mem_found_report.mpr (.inl ih)
  | checkEnd _ ih => exact ih

/- All that has been reported is among what was found. -/
theorem finish_append
    (c : Cursor) :
    c.finish ++ c.source.drain.2.problems = c.found := by
  rw [finish, found, Array.toList_appendList,
    List.append_assoc, TokenSource.problems_drain]

/- Where no token is left, everything has been reported. -/
theorem found_of_ended
    {c d : Cursor}
    (hNext : c.next = (none, d)) :
    d.peeked = none
      ∧ d.tokens = []
      ∧ d.source.problems = []
      ∧ d.finish = d.diagnostics.toList := by
  rcases hPeeked : c.peeked with _ | t
  · rcases hPull : c.pull with ⟨found, e⟩
    rw [next_of_pull hPeeked hPull, Prod.mk.injEq] at hNext
    obtain ⟨rfl, rfl⟩ := hNext
    have hSource : c.source.next.1 = none :=
      congrArg Prod.fst hPull
    have hNone := TokenSource.problems_of_ended hSource
    rw [show c.source.next.2.drain.2 = e.source from
      congrArg (fun x => x.2.source) hPull] at hNone
    have hTokens := c.pull_tokens
    have hEmpty := c.pull_fst
    rw [hPull] at hTokens hEmpty
    have hDrain := e.source.problems_drain
    rw [hNone, List.append_eq_nil_iff] at hDrain
    have hPeeked' : e.peeked = none := by
      have hSame := pull_peeked c
      rwa [hPull, hPeeked] at hSame
    refine ⟨hPeeked', ?_, hNone, ?_⟩
    · have hNil := List.head?_eq_none_iff.mp hEmpty.symm
      simp [tokens, hPeeked', hTokens, hNil]
    · simp [finish, hDrain.1]
  · simp [next, hPeeked] at hNext

end Cursor
end BlockScript
