import BlockScript.Proofs.Places
import BlockScript.Proofs.Prelexed
import BlockScript.Proofs.Realignment
import BlockScript.Proofs.Spans

/-
  This file shows that diagnostics come in the order of the
  text they are about. A cursor has reported up to its next
  token, or up to the end of the last one without any. Only a
  comment that is not closed may come too early, since it is
  met while looking for the next token.

  Key definitions include:
    * `Diagnostic.NoLater`
    * `Diagnostics.orderly`
    * `Diagnostics.UpTo`
    * `Cursor.frontier`
    * `Cursor.ReportsUpTo`

  Key theorems include:
    * `TokenSource.IsDrainedScript.startsAt_of_next`
    * `Cursor.frontier_le_next`
    * `Cursor.Proceeds.upTo`
    * `Script.parse_ordered`
-/

namespace BlockScript

------------------------------------------------------------
-- Diagnostics in Order
------------------------------------------------------------

namespace Diagnostic

/- A diagnostic whose range starts at a byte. -/
def StartsAt
    (d : Diagnostic)
    (n : Nat) : Prop :=
  ∃ s, d.span = some s ∧ s.start = n

/- One diagnostic starts where another does, or before it. -/
def NoLater (d e : Diagnostic) : Prop :=
  ∃ m n, d.StartsAt m ∧ e.StartsAt n ∧ m ≤ n

end Diagnostic

namespace Diagnostics

/- All but that a comment is not closed. -/
def orderly (ds : List Diagnostic) : List Diagnostic :=
  ds.filter (·.kind != .unterminatedComment)

/- Diagnostics in order, none of which starts after a byte. -/
structure UpTo
    (n : Nat)
    (ds : List Diagnostic) : Prop where
  order : ds.Pairwise Diagnostic.NoLater
  bound : ∀ d ∈ ds, ∃ m, m ≤ n ∧ d.StartsAt m

namespace UpTo

variable {m n : Nat}
variable {ds more : List Diagnostic}

theorem nil : UpTo n [] where
  order := .nil
  bound := by simp

theorem mono
    (hUpTo : UpTo m ds)
    (hLe : m ≤ n) :
    UpTo n ds where
  order := hUpTo.order
  bound d hd := by
    rcases hUpTo.bound d hd with ⟨k, hk, hStarts⟩
    exact ⟨k, Nat.le_trans hk hLe, hStarts⟩

/- What starts at the bound may come next. -/
theorem append
    (hUpTo : UpTo n ds)
    (hMore : ∀ x ∈ more, x.StartsAt n) :
    UpTo n (ds ++ more) where
  order := by
    refine List.pairwise_append.mpr ⟨hUpTo.order, ?_, ?_⟩
    · apply List.pairwise_of_forall_mem_list
      intro x hx y hy
      exact ⟨n, n, hMore x hx, hMore y hy, Nat.le_refl n⟩
    · intro d hd x hx
      rcases hUpTo.bound d hd with ⟨k, hk, hStarts⟩
      exact ⟨k, n, hStarts, hMore x hx, hk⟩
  bound d hd := by
    rcases List.mem_append.mp hd with hd | hd
    · exact hUpTo.bound d hd
    · exact ⟨n, Nat.le_refl n, hMore d hd⟩

theorem orderly_append
    (hUpTo : UpTo n (orderly ds))
    (hMore :
      ∀ x ∈ more,
        x.kind ≠ .unterminatedComment → x.StartsAt n) :
    UpTo n (orderly (ds ++ more)) := by
  rw [orderly, List.filter_append]
  apply hUpTo.append
  intro x hx
  rcases List.mem_filter.mp hx with ⟨hx, hKind⟩
  exact hMore x hx (bne_iff_ne.mp hKind)

end UpTo
end Diagnostics

------------------------------------------------------------
-- Problems on the Way
------------------------------------------------------------

/-
  A lexer meets a problem with the next token, and this is
  where it starts, or with a comment where there is none.
-/
theorem Lexer.startsAt_of_next
    {l m : Lexer}
    {found : Option Token}
    (hPending : l.pending = [])
    (hNext : l.next = (found, m)) :
    ∀ x ∈ m.pending,
      x.kind ≠ .unterminatedComment →
        ∃ t, found = some t ∧ x.StartsAt t.span.start := by
  unfold next at hNext
  rcases hSplit : splitLayout [] l.rest with ⟨gap, _ | ⟨c, tail⟩⟩
  · simp only [hSplit, Prod.mk.injEq] at hNext
    rw [← hNext.2, hPending]
    simp
  · rcases hComment : startsComment (c :: tail) with _ | _
    · simp only [hSplit, hComment, Bool.false_eq_true, if_false,
        Prod.mk.injEq] at hNext
      rcases hNext with ⟨rfl, rfl⟩
      intro x hx _
      refine ⟨_, rfl, ?_⟩
      unfold takeLexeme at hx ⊢
      rcases hClosed : (lexeme c tail).1.closed with _ | _
      · simp only [hClosed, Bool.false_eq_true, if_false,
          complain, hPending, List.nil_append,
          List.mem_singleton] at hx ⊢
        rw [hx]
        exact ⟨_, rfl, rfl⟩
      · simp [hClosed, hPending] at hx
    · simp only [hSplit, hComment, if_true, Prod.mk.injEq] at hNext
      rw [← hNext.2]
      intro x hx hKind
      simp only [complain, hPending, List.nil_append,
        List.mem_singleton] at hx
      rw [hx] at hKind
      exact absurd rfl hKind

/- A script, none of whose problems waits to be taken. -/
def TokenSource.IsDrainedScript (s : TokenSource) : Prop :=
  ∃ l, s = script l ∧ l.pending = []

theorem TokenSource.IsDrainedScript.pull
    {s : TokenSource}
    (hScript : s.IsDrainedScript) :
    s.next.2.drain.2.IsDrainedScript := by
  rcases hScript with ⟨l, rfl, -⟩
  exact ⟨_, rfl, rfl⟩

theorem TokenSource.IsDrainedScript.startsAt_of_next
    {s : TokenSource}
    (hScript : s.IsDrainedScript) :
    ∀ x ∈ s.next.2.drain.1,
      x.kind ≠ .unterminatedComment →
        ∃ t, s.next.1 = some t ∧ x.StartsAt t.span.start := by
  rcases hScript with ⟨l, rfl, hDrained⟩
  exact Lexer.startsAt_of_next hDrained rfl

------------------------------------------------------------
-- The Next Byte of a Cursor
------------------------------------------------------------

theorem Cursor.Reaches.inOrder
    {c d : Cursor}
    (hReaches : c.Reaches d)
    (hOrder : InOrder c.tokens) :
    InOrder d.tokens := by
  rcases hReaches.tokens_suffix with ⟨taken, hTokens⟩
  rw [← hTokens] at hOrder
  exact hOrder.right

namespace Cursor

/-
  The byte at which the next token starts, or at which the
  last one has ended.
-/
def frontier (c : Cursor) : Nat :=
  (c.tokens.head?.map fun t => t.span.start).getD
    c.lastSpan.stop

/- What a cursor has reported is in order, up to a byte. -/
def ReportsUpTo
    (c : Cursor)
    (n : Nat) : Prop :=
  Diagnostics.UpTo n (Diagnostics.orderly c.diagnostics.toList)

variable {c : Cursor}

theorem frontier_of_next
    {t : Token}
    (hNext : c.next.1 = some t) :
    c.frontier = t.span.start := by
  rw [next_fst] at hNext
  rw [frontier, hNext]
  rfl

theorem frontier_of_end
    (hEnd : c.tokens = []) :
    c.frontier = c.lastSpan.stop := by
  rw [frontier, hEnd]
  rfl

theorem frontier_peek
    (c : Cursor) :
    c.peek.2.frontier = c.frontier := by
  rw [frontier, frontier, tokens_peek, c.takes_peek.lastSpan]
  rfl

/- Tokens that are taken are left behind. -/
theorem frontier_le_next
    (hOrder : InOrder c.tokens) :
    c.frontier ≤ c.next.2.frontier := by
  rcases hTokens : c.tokens with _ | ⟨t, ts⟩
  · rw [next_of_tokens_nil hTokens]
    exact Nat.le_of_eq c.frontier_peek.symm
  · rcases takes_next hTokens with ⟨d, hNext, hTakes, hLeft⟩
    rw [hTokens] at hOrder
    have hSome : t.span.start < t.span.stop :=
      hOrder.some t (.head ts)
    have hFirst : c.frontier = t.span.start :=
      frontier_of_next (congrArg Prod.fst hNext)
    rw [hNext, hFirst]
    cases ts with
    | nil =>
        rw [frontier_of_end hLeft, hTakes.lastSpan]
        exact Nat.le_of_lt hSome
    | cons u us =>
        have hAfter : t.span.stop ≤ u.span.start :=
          List.rel_of_pairwise_cons hOrder.order (.head us)
        rw [frontier, hLeft]
        exact Nat.le_trans (Nat.le_of_lt hSome) hAfter

/- Taking a token brings what a look at it does. -/
theorem diagnostics_next_eq
    (c : Cursor) :
    c.next.2.diagnostics = c.peek.2.diagnostics := by
  rcases hPeeked : c.peeked with _ | t
  · rcases hPull : c.pull with ⟨_ | t, d⟩ <;>
      simp [next, peek, hPeeked, hPull, consume]
  · simp [next, peek, hPeeked, consume]

/- What a look brings starts at the token that it finds. -/
theorem upTo_peek
    (hScript : c.source.IsDrainedScript)
    (hUpTo : c.ReportsUpTo c.frontier) :
    c.peek.2.ReportsUpTo c.frontier := by
  rcases hPeeked : c.peeked with _ | t
  · have hBrought :
        c.peek.2.diagnostics.toList
          = c.diagnostics.toList ++ c.source.next.2.drain.1 := by
      rw [peek_of_pull hPeeked rfl]
      exact Array.toList_appendList
    rw [ReportsUpTo, hBrought]
    apply hUpTo.orderly_append
    intro x hx hKind
    rcases hScript.startsAt_of_next x hx hKind with
      ⟨t, hFound, hStarts⟩
    have hNext : c.next.1 = some t := by
      rw [next_fst, tokens, hPeeked, ← hFound, c.source.next_fst]
      rfl
    rwa [frontier_of_next hNext]
  · rwa [peek_of_peeked hPeeked]

theorem upTo_next
    (hScript : c.source.IsDrainedScript)
    (hUpTo : c.ReportsUpTo c.frontier) :
    c.next.2.ReportsUpTo c.frontier := by
  rw [ReportsUpTo, diagnostics_next_eq]
  exact upTo_peek hScript hUpTo

/- A report at the bound keeps to it. -/
theorem upTo_report
    {n : Nat}
    {x : Diagnostic}
    (hStarts : x.StartsAt n)
    (hUpTo : c.ReportsUpTo n) :
    (c.report x).ReportsUpTo n := by
  rw [ReportsUpTo, report, Array.toList_push]
  apply hUpTo.orderly_append
  intro y hy _
  rwa [List.mem_singleton.mp hy]

/-
  On its way a cursor has reported up to its next token. The
  steps that report at a token taken keep to the start of it,
  which the next token comes after.
-/
theorem Proceeds.upTo
    {d : Cursor}
    (hOrder : InOrder c.tokens)
    (hScript : c.source.IsDrainedScript)
    (hNone : c.diagnostics = #[])
    (hProceeds : c.Proceeds d) :
    d.ReportsUpTo d.frontier := by
  have hPulled :
      ∀ {e : Cursor},
        c.Proceeds e → e.source.IsDrainedScript := by
    intro e hMore
    exact hMore.reaches.source
      (fun _ => TokenSource.IsDrainedScript.pull) hScript
  induction hProceeds with
  | refl =>
      rw [ReportsUpTo, hNone]
      exact .nil
  | @peek d hProceeds ih =>
      rw [frontier_peek]
      exact upTo_peek (hPulled hProceeds) ih
  | @next d hProceeds ih =>
      have hLe :=
        frontier_le_next (hProceeds.reaches.inOrder hOrder)
      have hTaken :=
        upTo_next (hPulled hProceeds) ih
      exact hTaken.mono hLe
  | @reportNext d t x hProceeds hPeeked ih =>
      refine upTo_report ⟨t.span, rfl, ?_⟩ ih
      exact (frontier_of_next (next_of_peeked hPeeked)).symm
  | @reportTaken d e t x hProceeds hNext ih =>
      have hLe :=
        frontier_le_next (hProceeds.reaches.inOrder hOrder)
      have hTaken :=
        upTo_next (hPulled hProceeds) ih
      have hFirst : d.frontier = t.span.start :=
        frontier_of_next (congrArg Prod.fst hNext)
      rw [hNext] at hLe hTaken
      have hReport :=
        upTo_report (x := x.place t.span t.location)
          ⟨t.span, rfl, hFirst.symm⟩ hTaken
      exact hReport.mono hLe
  | @reportEnd d x hProceeds hEnd ih =>
      refine upTo_report ⟨_, rfl, ?_⟩ ih
      exact (frontier_of_end hEnd).symm

end Cursor

------------------------------------------------------------
-- Scripts
------------------------------------------------------------

/- A diagnostic in its place has a range in the text. -/
theorem Diagnostic.Placed.bounds
    {source : String}
    {d : Diagnostic}
    (hPlaced :
      d.Placed (tokenize source).1 (tokenize source).2) :
    ∃ s,
      d.span = some s
        ∧ s.start ≤ s.stop
        ∧ s.stop ≤ source.utf8ByteSize := by
  cases hPlaced with
  | problem hProblem =>
      rcases concerns_of_problem hProblem with
        ⟨s, l, hSpan, -, hOccupies⟩
      rcases hOccupies.bounds with ⟨hSome, hStop⟩
      exact ⟨s, hSpan, Nat.le_of_lt hSome, hStop⟩
  | token x hToken hPlace =>
      rcases (occupies_of_token hToken).bounds with
        ⟨hSome, hStop⟩
      rw [hPlace]
      exact ⟨_, rfl, Nat.le_of_lt hSome, hStop⟩
  | ended x hPlace =>
      rw [hPlace, placeAfterAll]
      split
      · rename_i t hLast
        have hToken := List.mem_of_getLast? hLast
        exact ⟨_, rfl, Nat.le_refl _,
          (occupies_of_token hToken).bounds.2⟩
      · exact ⟨_, rfl, Nat.le_refl _, Nat.zero_le _⟩

namespace Script

/- Only problems with the text are about comments. -/
theorem length_openComments_le
    {r : Registry}
    (source : String)
    (hPlain : r.Plain) :
    ((parse r source).diagnostics.filter
      (·.kind == .unterminatedComment)).length ≤ 1 := by
  have hAmong :
      List.Sublist
        ((parse r source).diagnostics.filter
          (·.kind == .unterminatedComment))
        (Diagnostics.lexical (parse r source).diagnostics) := by
    apply List.monotone_filter_right
    intro d hKind
    rw [beq_iff_eq.mp hKind]
    rfl
  rw [lexical_parse source hPlain] at hAmong
  exact Nat.le_trans hAmong.length_le
    (tiling_tokenize source).length_problems_le

/-
  Every diagnostic has a range in the text. One may be that a
  comment is not closed, and all others come in order.
-/
theorem parse_ordered
    {r : Registry}
    (source : String)
    (hPlain : r.Plain) :
    (∀ d ∈ (parse r source).diagnostics,
        ∃ s,
          d.span = some s
            ∧ s.start ≤ s.stop
            ∧ s.stop ≤ source.utf8ByteSize)
      ∧ ((parse r source).diagnostics.filter
            (·.kind == .unterminatedComment)).length ≤ 1
      ∧ ((parse r source).diagnostics.filter
            (·.kind != .unterminatedComment)).Pairwise
          Diagnostic.NoLater := by
  have hProceeds :=
    Registry.proceeds_readItems hPlain [] (.ofSource source)
  have hDrained := hProceeds.reaches.drained rfl
  have hOrder : InOrder (Cursor.ofSource source).tokens :=
    inOrder_tokenize source
  refine ⟨?_, length_openComments_le source hPlain, ?_⟩
  · intro d hd
    have hFresh : Cursor.Run.Fresh (.ofSource source) :=
      ⟨rfl, rfl, rfl, rfl⟩
    exact (placed_of_ofCursor hPlain hFresh hd).bounds
  · have hUpTo := hProceeds.upTo hOrder ⟨_, rfl, rfl⟩ rfl
    have hAll :
        (parse r source).diagnostics
          = (r.readItems []
              (.ofSource source)).2.diagnostics.toList := by
      simp [parse, ofCursor, Cursor.finish, hDrained]
    rw [hAll]
    exact hUpTo.order

/-
  An unknown keyword, a comment that is not closed, and then
  what stands before it: a block without a name.
-/
theorem parse_ordered_openComment :
    let source := "? tech /* \"a\""
    Registry.standard.Plain
      ∧ (parse .standard source).diagnostics.map
            (fun d => (d.kind, d.span))
          = [(.unknownKeyword, some ⟨0, 1⟩),
              (.unterminatedComment, some ⟨7, 13⟩),
              (.missingName, some ⟨6, 6⟩),
              (.missingBody, some ⟨6, 6⟩)]
      ∧ (∀ d ∈ (parse .standard source).diagnostics,
          ∃ s,
            d.span = some s
              ∧ s.start ≤ s.stop
              ∧ s.stop ≤ source.utf8ByteSize)
      ∧ ((parse .standard source).diagnostics.filter
            (·.kind == .unterminatedComment)).length ≤ 1
      ∧ ((parse .standard source).diagnostics.filter
            (·.kind != .unterminatedComment)).Pairwise
          Diagnostic.NoLater := by
  refine ⟨by decide, by decide +kernel, ?_⟩
  exact parse_ordered _ (by decide)

end Script
end BlockScript
