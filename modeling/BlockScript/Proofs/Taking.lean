import BlockScript.Proofs.Items

/-
  This file accounts for what a cursor does on its way: the
  tokens that it takes, and what is reported meanwhile.

  Key definitions include:
    * `Cursor.Takes`
    * `Cursor.LastIs`

  Key theorems include:
    * `Cursor.Takes.trans`
    * `Cursor.Reaches.takes`
    * `Cursor.takes_skipToClose`
    * `Cursor.takes_body`
-/

namespace BlockScript

/- A diagnostic at the end of a token. -/
def Diagnostic.placeAfter
    (d : Diagnostic)
    (t : Token) : Diagnostic :=
  d.place
    { start := t.span.stop, stop := t.span.stop }
    (t.location.advance t.span.length)

namespace Cursor

------------------------------------------------------------
-- Tokens Taken
------------------------------------------------------------

/- Whether tokens come from a list. -/
def IsListed (c : Cursor) : Prop :=
  ∃ ts, c.source = .listed ts

/-
  A cursor that has become another by taking some tokens and
  reporting. From a list nothing else is reported; a script
  may add problems of its own. What was reported stays so.
-/
structure Takes
    (c : Cursor)
    (taken : List Token)
    (reported : List Diagnostic)
    (c' : Cursor) : Prop where
  tokens : c.tokens = taken ++ c'.tokens
  depth :
    c'.depth
      = taken.foldl (fun d t => depthAfter d t.kind) c.depth
  lastSpan :
    c'.lastSpan = taken.foldl (fun _ t => t.span) c.lastSpan
  lastLocation :
    c'.lastLocation
      = taken.foldl (fun _ t => t.location) c.lastLocation
  kept :
    ∀ x ∈ c.diagnostics.toList, x ∈ c'.diagnostics.toList
  reports :
    ∀ x ∈ reported, x ∈ c'.diagnostics.toList
  listed :
    c.IsListed →
      c'.IsListed
        ∧ c'.diagnostics.toList
            = c.diagnostics.toList ++ reported

namespace Takes

variable {c c' c'' : Cursor}

theorem refl
    (c : Cursor) :
    c.Takes [] [] c where
  tokens := rfl
  depth := rfl
  lastSpan := rfl
  lastLocation := rfl
  kept _ hx := hx
  reports := by simp
  listed hListed := ⟨hListed, by simp⟩

/- What is taken and reported adds up. -/
theorem trans
    {ts ts' : List Token}
    {ds ds' : List Diagnostic}
    (hFirst : c.Takes ts ds c')
    (hSecond : c'.Takes ts' ds' c'') :
    c.Takes (ts ++ ts') (ds ++ ds') c'' where
  tokens := by
    rw [hFirst.tokens, hSecond.tokens, List.append_assoc]
  depth := by
    rw [hSecond.depth, hFirst.depth, List.foldl_append]
  lastSpan := by
    rw [hSecond.lastSpan, hFirst.lastSpan, List.foldl_append]
  lastLocation := by
    rw [hSecond.lastLocation, hFirst.lastLocation,
      List.foldl_append]
  kept x hx := hSecond.kept x (hFirst.kept x hx)
  reports x hx := by
    rcases List.mem_append.mp hx with hx | hx
    · exact hSecond.kept x (hFirst.reports x hx)
    · exact hSecond.reports x hx
  listed hListed := by
    obtain ⟨hMiddle, hDiagnostics⟩ := hFirst.listed hListed
    obtain ⟨hLast, hDiagnostics'⟩ := hSecond.listed hMiddle
    exact ⟨hLast, by simp [hDiagnostics, hDiagnostics']⟩

end Takes

theorem takes_report
    (c : Cursor)
    (d : Diagnostic) :
    c.Takes [] [d] (c.report d) where
  tokens := rfl
  depth := rfl
  lastSpan := rfl
  lastLocation := rfl
  kept x hx := by simp [report, hx]
  reports := by simp [report]
  listed hListed := ⟨hListed, by simp [report]⟩

theorem takes_checkEnd
    (c : Cursor) :
    c.Takes [] [] c.checkEnd :=
  { Takes.refl c with }

/- A list is pulled from without problems. -/
theorem isListed_pull
    {c : Cursor}
    (hListed : c.IsListed) :
    c.pull.2.IsListed
      ∧ c.pull.2.diagnostics.toList = c.diagnostics.toList := by
  obtain ⟨ts, hSource⟩ := hListed
  cases ts with
  | nil =>
      simp [pull, hSource, TokenSource.next, TokenSource.drain,
        IsListed]
  | cons t ts =>
      simp [pull, hSource, TokenSource.next, TokenSource.drain,
        IsListed]

theorem mem_pull
    {c : Cursor}
    {x : Diagnostic}
    (hx : x ∈ c.diagnostics.toList) :
    x ∈ c.pull.2.diagnostics.toList := by
  simp only [pull, Array.toList_appendList]
  exact List.mem_append_left _ hx

/- A look takes nothing. -/
theorem takes_peek
    (c : Cursor) :
    c.Takes [] [] c.peek.2 := by
  refine ⟨by simp, by simp [depth_peek], ?_, ?_, ?_, by simp, ?_⟩
  · unfold peek
    split <;> rfl
  · unfold peek
    split <;> rfl
  · intro x hx
    unfold peek
    split
    · exact hx
    · exact mem_pull hx
  · intro hListed
    obtain ⟨hAfter, hDiagnostics⟩ := isListed_pull hListed
    unfold peek
    split
    · exact ⟨hListed, by simp⟩
    · exact ⟨hAfter, by simpa using hDiagnostics⟩

/- At the end of input nothing is taken. -/
theorem next_of_tokens_nil
    {c : Cursor}
    (hEnd : c.tokens = []) :
    c.next = (none, c.peek.2) := by
  have hPeek : c.peek = (none, c.peek.2) := by
    rw [← show c.peek.1 = none by rw [peek_fst, hEnd]; rfl]
  exact next_of_peek_none hPeek

/- The token taken is noted, and no more is done. -/
theorem next_consume
    {c : Cursor}
    {t : Token}
    (hFirst : c.next.1 = some t) :
    ∃ d : Cursor,
      c.next.2 = d.consume t
        ∧ d.depth = c.depth
        ∧ (∀ x ∈ c.diagnostics.toList,
            x ∈ d.diagnostics.toList)
        ∧ (c.IsListed →
            d.IsListed
              ∧ d.diagnostics.toList
                  = c.diagnostics.toList) := by
  rcases hPeeked : c.peeked with _ | s
  · rcases hPull : c.pull with ⟨found, d⟩
    have hListed := isListed_pull (c := c)
    have hDepth : d.depth = c.depth :=
      congrArg (fun p => p.2.depth) hPull.symm
    have hKept := fun x => mem_pull (c := c) (x := x)
    rw [hPull] at hListed hKept
    rw [next_of_pull hPeeked hPull] at hFirst ⊢
    obtain rfl : found = some t := hFirst
    exact ⟨d, rfl, hDepth, hKept, hListed⟩
  · obtain rfl : s = t := by
      rw [next_of_peeked hPeeked] at hFirst
      exact Option.some.inj hFirst
    refine ⟨{ c with peeked := none }, ?_, rfl,
      fun _ hx => hx, ?_⟩
    · simp [next, hPeeked]
    · intro hListed
      exact ⟨hListed, rfl⟩

/- The first of the tokens is taken by itself. -/
theorem takes_next
    {c : Cursor}
    {t : Token}
    {ts : List Token}
    (hTokens : c.tokens = t :: ts) :
    ∃ d,
      c.next = (some t, d)
        ∧ c.Takes [t] [] d
        ∧ d.tokens = ts := by
  have hFirst : c.next.1 = some t := by
    rw [next_fst, hTokens]
    rfl
  have hAfter : c.next.2.tokens = ts := by
    rw [tokens_next, hTokens]
    rfl
  obtain ⟨d, hNext, hDepth, hKept, hListed⟩ :=
    next_consume hFirst
  refine ⟨c.next.2, by rw [← hFirst], ?_, hAfter⟩
  refine ⟨by simp [hTokens], ?_, ?_, ?_, ?_, by simp, ?_⟩
  · rw [hNext, ← hDepth]
    rfl
  · rw [hNext]
    rfl
  · rw [hNext]
    rfl
  · rw [hNext]
    exact hKept
  · rw [hNext, List.append_nil]
    exact hListed

/- A cursor gets anywhere by taking tokens and reporting. -/
theorem Reaches.takes
    {c d : Cursor}
    (hReaches : c.Reaches d) :
    ∃ taken reported, c.Takes taken reported d := by
  induction hReaches with
  | refl => exact ⟨[], [], .refl c⟩
  | peek _ ih =>
      obtain ⟨taken, reported, hTakes⟩ := ih
      exact ⟨_, _, hTakes.trans (takes_peek _)⟩
  | @next e _ ih =>
      obtain ⟨taken, reported, hTakes⟩ := ih
      rcases hTokens : e.tokens with _ | ⟨t, ts⟩
      · rw [next_of_tokens_nil hTokens]
        exact ⟨_, _, hTakes.trans e.takes_peek⟩
      · obtain ⟨f, hNext, hFirst, -⟩ := takes_next hTokens
        rw [hNext]
        exact ⟨_, _, hTakes.trans hFirst⟩
  | report x _ ih =>
      obtain ⟨taken, reported, hTakes⟩ := ih
      exact ⟨_, _, hTakes.trans (takes_report _ x)⟩
  | checkEnd _ ih =>
      obtain ⟨taken, reported, hTakes⟩ := ih
      exact ⟨_, _, hTakes.trans (takes_checkEnd _)⟩

------------------------------------------------------------
-- The Last Token
------------------------------------------------------------

/- The last token taken stands at the place of `t`. -/
def LastIs
    (c : Cursor)
    (t : Token) : Prop :=
  c.lastSpan = t.span ∧ c.lastLocation = t.location

theorem foldl_last
    {α : Type}
    (f : Token → α)
    (t : Token)
    (ts : List Token) :
    ts.foldl (fun _ t => f t) (f t) = f (ts.getLastD t) := by
  induction ts generalizing t with
  | nil => rfl
  | cons s ts ih => rw [List.foldl_cons, ih, List.getLastD_cons]

/- The last of several tokens taken. -/
theorem Takes.lastIs
    {c c' : Cursor}
    {t : Token}
    {taken : List Token}
    {reported : List Diagnostic}
    (hTakes : c.Takes taken reported c')
    (hLast : c.LastIs t) :
    c'.LastIs (taken.getLastD t) := by
  obtain ⟨hSpan, hLocation⟩ := hLast
  constructor
  · rw [hTakes.lastSpan, hSpan, foldl_last]
  · rw [hTakes.lastLocation, hLocation, foldl_last]

/- A report after a token stands at the end of it. -/
theorem reportAtEnd_eq
    {c : Cursor}
    {t : Token}
    (d : Diagnostic)
    (hLast : c.LastIs t) :
    c.reportAtEnd d = c.checkEnd.report (d.placeAfter t) := by
  obtain ⟨hSpan, hLocation⟩ := hLast
  simp only [reportAtEnd, hSpan, hLocation,
    Diagnostic.placeAfter]

theorem takes_reportAtEnd
    {c : Cursor}
    {t : Token}
    (d : Diagnostic)
    (hLast : c.LastIs t) :
    c.Takes [] [d.placeAfter t] (c.reportAtEnd d) := by
  rw [reportAtEnd_eq d hLast]
  exact c.takes_checkEnd.trans (takes_report _ _)

------------------------------------------------------------
-- Groups in Braces
------------------------------------------------------------

/-
  Skipping takes the tokens up to the one that closes the
  block, or all if there is none.
-/
theorem takes_skipToClose
    {c : Cursor}
    {bodyDepth : Nat}
    (hPositive : 0 < bodyDepth)
    (hOpen : bodyDepth ≤ c.depth) :
    (∃ front d,
      c.skipToClose bodyDepth = (true, d)
        ∧ splitClose bodyDepth c.depth c.tokens
            = some (front, d.tokens)
        ∧ c.Takes front [] d
        ∧ d.depth < bodyDepth)
      ∨ ∃ d,
          c.skipToClose bodyDepth = (false, d)
            ∧ splitClose bodyDepth c.depth c.tokens = none
            ∧ c.Takes c.tokens [] d
            ∧ d.tokens = [] := by
  generalize hTokens : c.tokens = ts
  induction ts generalizing c with
  | nil =>
      rw [skipToClose_of_open hPositive hOpen,
        next_of_tokens_nil hTokens]
      exact .inr ⟨_, rfl, rfl, c.takes_peek, by simp [hTokens]⟩
  | cons t ts ih =>
      obtain ⟨d, hNext, hTakes, hAfter⟩ := takes_next hTokens
      have hDepth : d.depth = depthAfter c.depth t.kind :=
        hTakes.depth
      rw [skipToClose_of_open hPositive hOpen, hNext]
      simp only [splitClose, ← hDepth]
      by_cases hClosed : d.depth < bodyDepth
      · rw [skipToClose_of_closed (.inr hClosed), if_pos hClosed]
        exact .inl ⟨[t], d, rfl, by rw [hAfter], hTakes, hClosed⟩
      · rw [if_neg hClosed]
        rcases ih (by omega) hAfter with
          ⟨front, e, hSkip, hSplit, hMore, hLess⟩
            | ⟨e, hSkip, hSplit, hMore, hEnd⟩
        · refine .inl ⟨t :: front, e, hSkip, ?_,
            hTakes.trans hMore, hLess⟩
          rw [hSplit]
          rfl
        · refine .inr ⟨e, hSkip, ?_, hTakes.trans hMore, hEnd⟩
          rw [hSplit]
          rfl

/- Nothing is open, unless input has ended. -/
def AtTop (c : Cursor) : Prop :=
  c.tokens ≠ [] → c.depth = 0

/- The token taken at the top is all that is taken there. -/
theorem AtTop.next
    {c d : Cursor}
    {t : Token}
    (hTop : c.AtTop)
    (hNext : c.next = (some t, d)) :
    c.tokens = t :: d.tokens
      ∧ d.depth = depthAfter 0 t.kind
      ∧ d.LastIs t := by
  have hHead : c.tokens.head? = some t := by
    rw [← c.next_fst, hNext]
  obtain ⟨ts, hTokens⟩ := List.head?_eq_some_iff.mp hHead
  obtain ⟨e, hTaken, hTakes, -⟩ := takes_next hTokens
  obtain rfl : d = e := by
    rw [hNext, Prod.mk.injEq] at hTaken
    exact hTaken.2
  refine ⟨hTakes.tokens, ?_, hTakes.lastSpan,
    hTakes.lastLocation⟩
  rw [hTakes.depth, hTop (by simp [hTokens])]
  rfl

/-
  Once the brace `l` has been taken at the top, skipping takes
  the rest of its group.
-/
theorem takes_body
    {c : Cursor}
    {l : Token}
    (hLeft : l.kind = .lBrace)
    (hDepth : c.depth = 1) :
    ∃ (braces : Braces) (taken : List Token) (d : Cursor),
      c.skipToClose 1 = (braces.isClosed, d)
        ∧ braces.tokens = l :: taken
        ∧ braces.Fits d.tokens
        ∧ c.Takes taken [] d
        ∧ d.AtTop := by
  have hSound := splitBraces_sound (l :: c.tokens)
  simp only [splitBraces, if_pos hLeft] at hSound
  rcases takes_skipToClose (c := c) Nat.one_pos (by omega) with
    ⟨front, d, hSkip, hSplit, hTakes, hLess⟩
      | ⟨d, hSkip, hSplit, hTakes, hEnd⟩
  · rw [hDepth] at hSplit
    simp only [hSplit] at hSound
    refine ⟨.closed l front.dropLast (front.getLastD l),
      front, d, hSkip, ?_, hSound.1, hTakes,
      fun _ => by omega⟩
    have hTokens := hSound.2
    rw [hTakes.tokens, ← List.cons_append] at hTokens
    exact List.append_cancel_right hTokens
  · rw [hDepth] at hSplit
    simp only [hSplit] at hSound
    refine ⟨.unclosed l c.tokens, c.tokens, d, hSkip, rfl,
      ?_, hTakes, fun h => absurd hEnd h⟩
    rw [hEnd]
    exact hSound.1

/- A token of a kind is taken, or there is none in front. -/
theorem eat_cases
    (c : Cursor)
    (kind : TokenKind) :
    (∃ t d,
      c.eat kind = (some t, d)
        ∧ t.kind = kind
        ∧ c.Takes [t] [] d)
      ∨ c.eat kind = (none, c.peek.2)
          ∧ ∀ t ∈ c.tokens.head?, t.kind ≠ kind := by
  rw [eat_eq, peek_fst]
  by_cases hKind : c.tokens.head?.map Token.kind = some kind
  · rw [if_pos hKind, next_peek]
    rcases hTokens : c.tokens with _ | ⟨t, ts⟩
    · simp [hTokens] at hKind
    · obtain ⟨d, hNext, hTakes, -⟩ := takes_next hTokens
      exact .inl ⟨t, d, hNext, by simpa [hTokens] using hKind,
        hTakes⟩
  · rw [if_neg hKind]
    refine .inr ⟨rfl, ?_⟩
    rintro t ht rfl
    exact hKind (by rw [Option.mem_def.mp ht]; rfl)

/- A brace at the top is taken, or there is none. -/
theorem takes_eat
    {c : Cursor}
    (hTop : c.AtTop) :
    (∃ l d,
      c.eat .lBrace = (some l, d)
        ∧ l.kind = .lBrace
        ∧ c.Takes [l] [] d
        ∧ d.depth = 1)
      ∨ ∃ d,
          c.eat .lBrace = (none, d)
            ∧ Braces.absent.Fits d.tokens
            ∧ c.Takes [] [] d
            ∧ d.AtTop
            ∧ d.peek = (d.tokens.head?, d) := by
  rcases c.eat_cases .lBrace with
    ⟨l, d, hEat, hLeft, hTakes⟩ | ⟨hEat, hNone⟩
  · have hZero := hTop (by simp [hTakes.tokens])
    refine .inl ⟨l, d, hEat, hLeft, hTakes, ?_⟩
    rw [hTakes.depth, hZero]
    simp [depthAfter, hLeft]
  · refine .inr ⟨_, hEat, ?_, c.takes_peek, ?_, ?_⟩
    · intro t hHead
      rw [tokens_peek] at hHead
      exact hNone t hHead
    · intro hSome
      rw [tokens_peek] at hSome
      rw [depth_peek, hTop hSome]
    · rw [peek_peek, tokens_peek, ← peek_fst]

end Cursor
end BlockScript
