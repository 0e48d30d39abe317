import BlockScript.Proofs.Calls
import BlockScript.Proofs.Layout
import BlockScript.Proofs.Locations
import BlockScript.Proofs.Shift

/-
  This file shows that lexing may begin anew behind a token.
  What follows the token is lexed as a text of its own, whose
  places are counted on from there, and what comes before is
  lexed as if nothing followed.

  Key definitions include:
    * `Location.rebase`
    * `Token.rebase`
    * `Diagnostic.endsString`

  Key theorems include:
    * `Position.rebase_after`
    * `Tiling.rebase`
    * `tokenize_divided`
    * `tokenize_restart`
-/

namespace BlockScript

------------------------------------------------------------
-- Places That Are Counted On
------------------------------------------------------------

/-
  A location in a text that begins at `base`. Its line is
  counted on from there, its column on the first line only.
-/
def Location.rebase
    (base l : Location) : Location :=
  if l.line = 1 then
    { line := base.line,
      column := base.column + (l.column - 1) }
  else
    { line := base.line + (l.line - 1), column := l.column }

def Position.rebase
    (base p : Position) : Position :=
  { offset := base.offset + p.offset,
    location := base.location.rebase p.location }

def Token.rebase
    (base : Position)
    (t : Token) : Token :=
  { t with
    span := t.span.relocate (base.offset + ·),
    location := base.location.rebase t.location }

def Diagnostic.rebase
    (base : Position)
    (d : Diagnostic) : Diagnostic :=
  { d with
    span := d.span.map (Span.relocate (base.offset + ·)),
    location := d.location.map base.location.rebase }

/- A line feed starts a line that is counted from one. -/
theorem Location.rebase_step
    {l : Location}
    (base : Location)
    (c : Char)
    (hLine : 1 ≤ l.line)
    (hColumn : 1 ≤ l.column) :
    base.rebase (l.step c) = (base.rebase l).step c := by
  have hSome : l.line ≠ 0 := by omega
  by_cases hFeed : c = '\n'
  · by_cases hFirst : l.line = 1
    · simp [step, rebase, hFeed, hFirst]
    · simp [step, rebase, hFeed, hFirst, hSome]
      omega
  · by_cases hFirst : l.line = 1
    · simp [step, rebase, hFeed, hFirst]
      omega
    · simp [step, rebase, hFeed, hFirst]

/- Reading from a place on leads to the place counted on. -/
theorem Position.rebase_after
    (base : Position)
    (text : List Char) :
    base.rebase (first.after text) = base.after text := by
  induction text using List.reverseRecOn with
  | nil => simp [rebase, first, Location.first, Location.rebase]
  | append_singleton text c ih =>
      have hLocation := location_after text
      have hLine : 1 ≤ (first.after text).location.line := by
        rw [hLocation]
        exact Nat.le_add_right 1 _
      have hColumn : 1 ≤ (first.after text).location.column := by
        rw [hLocation]
        exact Nat.le_add_right 1 _
      rw [after_append, after_append, ← ih]
      simp only [after_cons, after_nil, step, rebase,
        Location.rebase_step _ c hLine hColumn, Nat.add_assoc]

/- Reading on from a later place leads to the same place. -/
theorem Position.rebase_after_later
    (base : Position)
    (before text : List Char) :
    (base.rebase (first.after before)).after text
      = base.rebase ((first.after before).after text) := by
  rw [rebase_after, ← after_append, ← after_append, rebase_after]

------------------------------------------------------------
-- Tilings That Are Counted On
------------------------------------------------------------

/- A token is counted on by its two ends. -/
theorem Spelling.rebase_token
    (base : Position)
    (x : Spelling)
    (before source : List Char) :
    (x.token (Position.first.after before) source).rebase base
      = x.token (base.after before) source := by
  have hStop := base.rebase_after_later before source
  rw [← base.rebase_after before]
  simp only [token, Token.rebase, Position.spanTo, Span.relocate,
    hStop]
  rfl

theorem Problem.rebase_over
    (base : Position)
    (problem : Problem)
    (before text : List Char) :
    (problem.over (Position.first.after before) text).rebase base
      = problem.over (base.after before) text := by
  have hStop := base.rebase_after_later before text
  rw [← base.rebase_after before]
  simp only [Problem.over, Diagnostic.rebase, Diagnostic.place,
    Position.spanTo, hStop]
  rfl

/- A text is tiled alike where it stands by itself. -/
theorem Tiling.rebase
    {before text : List Char}
    {ts : List Token}
    {ds : List Diagnostic}
    (base : Position)
    (hTiling :
      Tiling (Position.first.after before) text ts ds) :
    Tiling (base.after before) text
      (ts.map (Token.rebase base))
      (ds.map (Diagnostic.rebase base)) := by
  generalize hStart : Position.first.after before = p at hTiling
  induction hTiling generalizing before with
  | done hGap => exact .done hGap
  | @openComment _ gap body hGap hMark =>
      subst hStart
      rw [← Position.after_append, List.map_singleton,
        Problem.rebase_over, Position.after_append]
      exact .openComment hGap hMark
  | @openString _ gap body text hGap hContent =>
      subst hStart
      rw [← Position.after_append, List.map_singleton,
        List.map_singleton, Spelling.rebase_token,
        Problem.rebase_over, Position.after_append]
      exact .openString hGap hContent
  | @token _ gap source rest x ts ds hGap hWrites hRest ih =>
      subst hStart
      have hThere :
          Position.first.after (before ++ (gap ++ source))
            = ((Position.first.after before).after gap).after
                source := by
        simp only [Position.after_append]
      have hMore := ih hThere
      rw [Position.after_append, Position.after_append] at hMore
      rw [← Position.after_append, List.map_cons,
        Spelling.rebase_token, Position.after_append]
      exact .token hGap hWrites hMore

------------------------------------------------------------
-- Divided Texts
------------------------------------------------------------

/- The place behind a text that stands at the start. -/
theorem Position.first_after_eq
    (text : List Char) :
    first.after text
      = { offset := (String.ofList text).utf8ByteSize,
          location := Location.ofText text } := by
  rw [← offset_first_after, ← location_after]

/-
  Behind some tokens a text is divided in two. The first part
  has these tokens, and the second part has the later ones,
  counted on from there. It has the problem, too, unless this
  is over before.
-/
theorem tokenize_divided
    {source : String}
    {before after : List Token}
    (hTokens : (tokenize source).1 = before ++ after) :
    ∃ front back : String,
      let base := Position.first.after front.toList
      source = front ++ back
        ∧ before.foldl (fun _ t => t.span.stop) 0
            = front.utf8ByteSize
        ∧ (tokenize front).1 = before
        ∧ after = (tokenize back).1.map (Token.rebase base)
        ∧ ((tokenize source).2
              = (tokenize back).2.map (Diagnostic.rebase base)
            ∨ back = "") := by
  have hTiling := tiling_tokenize source
  rw [hTokens] at hTiling
  rcases hTiling.divide with
    ⟨front, back, ds, left, hText, hStop, hFront, hBack, hLeft⟩
  have hThere :
      Tiling (Position.first.after []) back
        (tokenize (String.ofList back)).1
        (tokenize (String.ofList back)).2 := by
    have hAlone := tiling_tokenize (String.ofList back)
    rwa [String.toList_ofList] at hAlone
  have hMoved := hThere.rebase (Position.first.after front)
  let l : Lexer :=
    { rest := back,
      position := Position.first.after front,
      pending := [] }
  rcases hBack.unique (l := l) rfl rfl rfl with
    ⟨hLater, hProblems⟩
  rcases hMoved.unique (l := l) rfl rfl rfl with
    ⟨hLater', hProblems'⟩
  rw [hLater] at hLater'
  rw [hProblems] at hProblems'
  refine ⟨String.ofList front, String.ofList back, ?_, ?_, ?_,
    ?_, ?_⟩
  · rw [← String.toList_inj, hText]
    simp
  · rw [← Position.offset_first_after]
    exact hStop
  · rw [tokenize_eq]
    exact (hFront.unique rfl (by simp [Lexer.ofSource]) rfl).1
  · rw [String.toList_ofList]
    exact hLater'
  · rw [String.toList_ofList, ← hProblems']
    rcases hLeft with rfl | ⟨-, rfl⟩
    · exact .inl rfl
    · exact .inr rfl

/- Tokens on two sides of a place are told apart by it. -/
theorem filter_divided
    {before after : List Token}
    {offset : Nat}
    (hSome : ∀ t ∈ before ++ after, t.span.start < t.span.stop)
    (hBefore : ∀ t ∈ before, t.span.stop ≤ offset)
    (hAfter : ∀ t ∈ after, offset ≤ t.span.start) :
    (before ++ after).filter (·.span.stop ≤ offset) = before
      ∧ (before ++ after).filter (offset ≤ ·.span.start)
          = after := by
  rw [List.forall_mem_append] at hSome
  constructor
  · rw [List.filter_append, List.filter_eq_self.mpr,
      List.filter_eq_nil_iff.mpr, List.append_nil]
    · intro t ht
      have hLess := hSome.2 t ht
      have hStart := hAfter t ht
      rw [decide_eq_true_eq]
      omega
    · intro t ht
      exact decide_eq_true (hBefore t ht)
  · rw [List.filter_append, List.filter_eq_nil_iff.mpr,
      List.filter_eq_self.mpr, List.nil_append]
    · intro t ht
      exact decide_eq_true (hAfter t ht)
    · intro t ht
      have hLess := hSome.1 t ht
      have hStop := hBefore t ht
      rw [decide_eq_true_eq]
      omega

------------------------------------------------------------
-- Problems before a Place
------------------------------------------------------------

/-
  Whether a diagnostic is about a token that ends at an offset
  and is a string that is not closed.
-/
def Diagnostic.endsString
    (tokens : List Token)
    (offset : Nat)
    (d : Diagnostic) : Bool :=
  d.kind == .unterminatedString
    && tokens.any fun t =>
      t.span.stop == offset && d.span == some t.span

theorem Diagnostic.endsString_iff
    {tokens : List Token}
    {offset : Nat}
    {d : Diagnostic} :
    d.endsString tokens offset = true
      ↔ d.kind = .unterminatedString
          ∧ ∃ t ∈ tokens,
              t.span.stop = offset ∧ d.span = some t.span := by
  simp [endsString]

/- A problem behind a place is about no token before it. -/
theorem Diagnostic.endsString_rebase
    {source : String}
    (base : Position)
    (d : Diagnostic) :
    (d.rebase base).endsString (tokenize source).1 base.offset
      = false := by
  rw [Bool.eq_false_iff, ne_eq, endsString_iff]
  rintro ⟨-, t, ht, hStop, hSpan⟩
  rcases Option.map_eq_some_iff.mp hSpan with ⟨s, -, hMoved⟩
  have hSome := ((tiling_tokenize source).bounds t ht).2.1
  rw [← hMoved] at hSome hStop
  simp only [Span.relocate] at hSome hStop
  omega

/-
  Where a token goes up to the end of a text, a problem with
  the text is that this token is not closed. There is no room
  for a comment behind it.
-/
theorem endsString_of_problem
    {source : String}
    {t : Token}
    {d : Diagnostic}
    (ht : t ∈ (tokenize source).1)
    (hStop : t.span.stop = source.utf8ByteSize)
    (hd : d ∈ (tokenize source).2) :
    d.endsString (tokenize source).1 source.utf8ByteSize
      = true := by
  have hEnds := (tiling_tokenize source).endsText d hd
  rw [Position.offset_first_after, String.ofList_toList] at hEnds
  rw [Diagnostic.endsString_iff]
  cases hEnds with
  | openString hKind hLast hSpan hEnd =>
      have hMember := List.mem_of_mem_getLast? hLast
      exact ⟨hKind, _, hMember, hEnd, hSpan⟩
  | @openComment s hKind hSpan hAfter hEnd =>
      rcases concerns_of_problem hd with
        ⟨s', l, hSpan', -, hOccupies⟩
      have hRoom := hOccupies.bounds.1
      have hLess := hAfter t ht
      rw [hSpan, Option.some.injEq] at hSpan'
      rw [← hSpan'] at hRoom
      omega

------------------------------------------------------------
-- Whole Texts
------------------------------------------------------------

/-
  Lexing may begin anew at the end of any token. What follows
  has by itself the tokens that come later, and the problem if
  it is not over before, both counted on from that place. What
  comes before has by itself the tokens up to there.
-/
theorem tokenize_restart
    (source : String)
    (offset : Nat)
    (hEnd : ∃ t ∈ (tokenize source).1, t.span.stop = offset) :
    (∃ front back,
        source = front ++ back ∧ front.utf8ByteSize = offset)
      ∧ ∀ front back,
          source = front ++ back →
            front.utf8ByteSize = offset →
              let base : Position :=
                { offset, location := .ofText front.toList }
              (tokenize source).1.filter (offset ≤ ·.span.start)
                  = (tokenize back).1.map (Token.rebase base)
                ∧ (tokenize source).2.filter
                      (!·.endsString (tokenize source).1 offset)
                    = (tokenize back).2.map
                        (Diagnostic.rebase base)
                ∧ (tokenize source).1.filter
                      (·.span.stop ≤ offset)
                    = (tokenize front).1 := by
  rcases exists_divided (.inr hEnd) with
    ⟨before, after, hTokens, hFold, hBefore, hAfter⟩
  rcases tokenize_divided hTokens with
    ⟨front, back, hSource, hBytes, hFront, hBack, hProblems⟩
  rw [hFold] at hBytes
  refine ⟨⟨front, back, hSource, hBytes.symm⟩, ?_⟩
  intro front' back' hOther hSame base
  rcases append_unique (hSource.symm.trans hOther)
      (hBytes.symm.trans hSame.symm) with
    ⟨rfl, rfl⟩
  have hBase : base = Position.first.after front.toList := by
    rw [Position.first_after_eq, String.ofList_toList, ← hBytes]
  have hSome : ∀ t ∈ before ++ after, t.span.start < t.span.stop := by
    intro t ht
    rw [← hTokens] at ht
    exact ((tiling_tokenize source).bounds t ht).2.1
  rw [← hBase] at hBack hProblems
  rcases filter_divided hSome hBefore hAfter with
    ⟨hEarlier, hLater⟩
  refine ⟨?_, ?_, ?_⟩
  · rw [hTokens, hLater, hBack]
  · rcases hProblems with hAll | rfl
    · rw [hAll, List.filter_eq_self]
      intro d hd
      rcases List.mem_map.mp hd with ⟨d, -, rfl⟩
      rw [d.endsString_rebase base]
      rfl
    · have hWhole : source.utf8ByteSize = offset := by
        rw [hSource, String.append_empty, hBytes]
      have hOver : (tokenize "").2 = [] := by decide +kernel
      rw [hOver, List.map_nil, List.filter_eq_nil_iff]
      intro d hd
      rcases hEnd with ⟨t, ht, hStop⟩
      rw [← hWhole, endsString_of_problem ht
        (hStop.trans hWhole.symm) hd]
      exact Bool.false_ne_true
  · rw [hTokens, hEarlier, hFront]

/-
  Behind a string of two lines, with a word right after it and
  a comment that is not closed.
-/
theorem tokenize_restart_glued :
    let source := "a \"é\nb\"c/\"d\"\nf /* e"
    let back := "c/\"d\"\nf /* e"
    let base : Position :=
      { offset := 8, location := { line := 2, column := 3 } }
    (∃ t ∈ (tokenize source).1, t.span.stop = 8)
      ∧ (tokenize source).1.filter (8 ≤ ·.span.start)
          = (tokenize back).1.map (Token.rebase base)
      ∧ (tokenize source).2.filter
            (!·.endsString (tokenize source).1 8)
          = (tokenize back).2.map (Diagnostic.rebase base)
      ∧ (tokenize source).1.filter (·.span.stop ≤ 8)
          = (tokenize "a \"é\nb\"").1 := by
  intro source back base
  have hEnd : ∃ t ∈ (tokenize source).1, t.span.stop = 8 := by
    decide +kernel
  have hPlace :
      Location.ofText "a \"é\nb\"".toList = base.location := by
    decide
  have hRestart :=
    (tokenize_restart source 8 hEnd).2 "a \"é\nb\"" back
      (by decide) (by decide)
  rw [hPlace] at hRestart
  exact ⟨hEnd, hRestart⟩

end BlockScript
