import BlockScript.Proofs.Lexemes

/-
  This file shows that tokens tile a text. Between tokens
  there is layout only, every token says what is written in
  its place, and words go as far as they can. A text has one
  tiling, and the lexer finds it.

  Key definitions include:
    * `Tiling`
    * `Token.Stands`

  Key theorems include:
    * `Lexer.tiling`
    * `Tiling.unique`
    * `Tiling.stands`
    * `tokenize_tiles`
-/

namespace BlockScript

------------------------------------------------------------
-- Tilings
------------------------------------------------------------

/- A problem with a text that begins at a position. -/
def Problem.over
    (problem : Problem)
    (p : Position)
    (text : List Char) : Diagnostic :=
  (Diagnostic.ofProblem problem).place
    (p.spanTo (p.after text)) p.location

/-
  The tokens of a text that begins at a position, and the
  problems with it. Each token stands after a gap and takes
  the characters it is written with. A comment or a string
  that is not closed goes up to the end of the text, and is
  the one problem there can be.
-/
inductive Tiling :
    Position → List Char → List Token → List Diagnostic →
      Prop where
  | done
      {p : Position}
      {gap : List Char}
      (hGap : Gap gap []) :
      Tiling p gap [] []
  | openComment
      {p : Position}
      {gap body : List Char}
      (hGap : Gap gap ('/' :: '*' :: body))
      (hMark : ¬ ['*', '/'] <:+: body) :
      Tiling p (gap ++ '/' :: '*' :: body) []
        [Problem.openComment.over (p.after gap)
          ('/' :: '*' :: body)]
  | openString
      {p : Position}
      {gap body text : List Char}
      (hGap : Gap gap ('"' :: body))
      (hContent : Content false body text) :
      Tiling p (gap ++ '"' :: body)
        [Spelling.token ⟨.str, String.ofList text⟩
          (p.after gap) ('"' :: body)]
        [Problem.openString.over (p.after gap) ('"' :: body)]
  | token
      {p : Position}
      {gap source rest : List Char}
      {x : Spelling}
      {ts : List Token}
      {ds : List Diagnostic}
      (hGap : Gap gap (source ++ rest))
      (hWrites : Writes rest source x)
      (hRest : Tiling ((p.after gap).after source) rest ts ds) :
      Tiling p (gap ++ (source ++ rest))
        (x.token (p.after gap) source :: ts) ds

/- A comment that is no layout is not closed. -/
theorem body_of_open
    {text : List Char}
    (hNone : layoutPiece? text = none)
    (hComment : startsComment text = true) :
    ∃ body,
      text = '/' :: '*' :: body ∧ ¬ ['*', '/'] <:+: body := by
  unfold startsComment at hComment
  split at hComment
  · simp [layoutPiece?_line] at hNone
  · rename_i body
    refine ⟨body, rfl, ?_⟩
    rcases first_mark body with hMark | ⟨inner, rest, rfl, hInner⟩
    · exact hMark
    · simp [layoutPiece?_comment,
        splitComment_of_mark _ _ hInner] at hNone
  · simp at hComment

namespace Lexer

variable {l : Lexer}
variable {gap : List Char}

/- The step of a lexer where only layout is left. -/
theorem next_of_gap
    (hSplit : splitLayout [] l.rest = (gap, [])) :
    l.next
      = (none,
          { l with
            rest := [],
            position := l.position.after gap }) := by
  unfold next
  rw [hSplit]

/- The step of a lexer where a comment is not closed. -/
theorem next_of_comment
    {c : Char}
    {tail : List Char}
    (hSplit : splitLayout [] l.rest = (gap, c :: tail))
    (hComment : startsComment (c :: tail) = true) :
    ∃ m : Lexer,
      l.next = (none, m)
        ∧ m.pending
            = l.pending
                ++ [Problem.openComment.over
                      (l.position.after gap) (c :: tail)] := by
  unfold next
  rw [hSplit]
  simp only [hComment, if_true]
  exact ⟨_, rfl, rfl⟩

/- The step of a lexer to a closed token. -/
theorem next_of_closed
    {c : Char}
    {tail source rest : List Char}
    {x : Spelling}
    (hSplit : splitLayout [] l.rest = (gap, c :: tail))
    (hComment : startsComment (c :: tail) = false)
    (hLexeme :
      lexeme c tail
        = (⟨x.kind, x.text.toList, source, true⟩, rest)) :
    ∃ m : Lexer,
      l.next = (some (x.token (l.position.after gap) source), m)
        ∧ m.rest = rest
        ∧ m.position = (l.position.after gap).after source
        ∧ m.pending = l.pending := by
  unfold next
  rw [hSplit]
  simp only [hComment, Bool.false_eq_true, if_false, takeLexeme,
    hLexeme, if_true, String.ofList_toList]
  exact ⟨_, rfl, rfl, rfl, rfl⟩

/- The step of a lexer to a string that is not closed. -/
theorem next_of_unclosed
    {c : Char}
    {tail text : List Char}
    (hSplit : splitLayout [] l.rest = (gap, c :: tail))
    (hComment : startsComment (c :: tail) = false)
    (hLexeme :
      lexeme c tail = (⟨.str, text, c :: tail, false⟩, [])) :
    ∃ m : Lexer,
      l.next
          = (some
              (Spelling.token ⟨.str, String.ofList text⟩
                (l.position.after gap) (c :: tail)),
            m)
        ∧ m.rest = []
        ∧ m.pending
            = l.pending
                ++ [Problem.openString.over
                      (l.position.after gap) (c :: tail)] := by
  unfold next
  rw [hSplit]
  simp only [hComment, Bool.false_eq_true, if_false, takeLexeme,
    hLexeme]
  exact ⟨_, rfl, rfl, rfl⟩

/- A lexer finds a tiling of its text. -/
theorem tiling
    (l : Lexer)
    (hPending : l.pending = []) :
    Tiling l.position l.rest l.tokens l.problems := by
  generalize hSize : l.rest.length = n
  induction n using Nat.strongRecOn generalizing l with
  | ind n ih =>
      rcases gap_of_splitLayout [] l.rest with
        ⟨gap, rest, hSplit, hText, hGap, hNone⟩
      rw [List.reverse_nil, List.nil_append] at hSplit
      rw [hText]
      cases rest with
      | nil =>
          have hNext := next_of_gap hSplit
          rw [tokens_of_none hNext, problems_of_none hNext,
            hPending, List.append_nil]
          exact .done hGap
      | cons c tail =>
          have hBlank : Text.isBlank c = false := by
            rw [Bool.eq_false_iff]
            intro hBlank
            simp [layoutPiece?_blank tail hBlank] at hNone
          rcases hComment : startsComment (c :: tail) with _ | _
          · rcases writes_of_lexeme hBlank hComment with
              ⟨source, rest, x, hLexeme, hSource, hWrites⟩
                | ⟨text, rfl, hLexeme, hContent⟩
            · rcases next_of_closed hSplit hComment hLexeme with
                ⟨m, hNext, hRest, hPosition, hKept⟩
              have hLess := next_length hNext
              rw [hSize] at hLess
              have hMore := ih _ hLess m (hKept.trans hPending) rfl
              rw [hRest, hPosition] at hMore
              rw [tokens_of_some hNext, problems_of_some hNext,
                hSource]
              rw [hSource] at hGap
              exact .token hGap hWrites hMore
            · rcases next_of_unclosed hSplit hComment hLexeme with
                ⟨m, hNext, hRest, hProblem⟩
              have hEnd := next_of_rest_nil hRest
              rw [tokens_of_some hNext, tokens_of_none hEnd,
                problems_of_some hNext, problems_of_none hEnd,
                hProblem, hPending, List.nil_append]
              exact .openString hGap hContent
          · rcases next_of_comment hSplit hComment with
              ⟨m, hNext, hProblem⟩
            rcases body_of_open hNone hComment with
              ⟨body, hBody, hMark⟩
            rw [tokens_of_none hNext, problems_of_none hNext,
              hProblem, hPending, List.nil_append, hBody]
            rw [hBody] at hGap
            exact .openComment hGap hMark

end Lexer

/- Where a lexer reads, it finds the one tiling there is. -/
theorem Tiling.unique
    {p : Position}
    {text : List Char}
    {ts : List Token}
    {ds : List Diagnostic}
    {l : Lexer}
    (hTiling : Tiling p text ts ds)
    (hPosition : l.position = p)
    (hText : l.rest = text)
    (hPending : l.pending = []) :
    l.tokens = ts ∧ l.problems = ds := by
  induction hTiling generalizing l with
  | done hGap =>
      have hSplit := splitLayout_of_gap [] hGap rfl
      rw [List.append_nil, ← hText] at hSplit
      have hNext := Lexer.next_of_gap hSplit
      rw [Lexer.tokens_of_none hNext, Lexer.problems_of_none hNext]
      exact ⟨rfl, hPending⟩
  | openComment hGap hMark =>
      have hNone := splitComment_of_no_mark ['*', '/'] hMark
      have hSplit := splitLayout_of_gap [] hGap hNone
      rw [← hText] at hSplit
      rcases Lexer.next_of_comment hSplit rfl with
        ⟨m, hNext, hProblem⟩
      rw [Lexer.tokens_of_none hNext,
        Lexer.problems_of_none hNext, hProblem, hPending,
        hPosition]
      exact ⟨rfl, rfl⟩
  | openString hGap hContent =>
      rename_i p gap body text
      have hSplit := splitLayout_of_gap [] hGap rfl
      have hLexeme :
          lexeme '"' body
            = (⟨.str, text, '"' :: body, false⟩, []) := by
        have hScan :=
          scanString_of_content [] ['"'] [] hContent (.inr rfl)
        simpa [lexeme, TokenKind.ofPunctuation?] using hScan
      rw [← hText] at hSplit
      rcases Lexer.next_of_unclosed hSplit rfl hLexeme with
        ⟨m, hNext, hRest, hProblem⟩
      have hEnd := Lexer.next_of_rest_nil hRest
      rw [Lexer.tokens_of_some hNext, Lexer.tokens_of_none hEnd,
        Lexer.problems_of_some hNext, Lexer.problems_of_none hEnd,
        hProblem, hPending, hPosition]
      exact ⟨rfl, rfl⟩
  | token hGap hWrites _ ih =>
      rcases lexeme_of_writes hWrites with
        ⟨c, tail, rfl, hBlank, hComment, hLexeme⟩
      have hNone := layoutPiece?_none hBlank hComment
      have hSplit := splitLayout_of_gap [] hGap hNone
      rw [← hText] at hSplit
      rcases Lexer.next_of_closed hSplit hComment hLexeme with
        ⟨m, hNext, hRest, hAfter, hKept⟩
      rw [hPosition] at hAfter
      rcases ih hAfter hRest (hKept.trans hPending) with
        ⟨hTokens, hProblems⟩
      rw [Lexer.tokens_of_some hNext, Lexer.problems_of_some hNext,
        hTokens, hProblems, hPosition]
      exact ⟨rfl, rfl⟩

------------------------------------------------------------
-- Places of Tokens
------------------------------------------------------------

/- A text does not move the offset back. -/
theorem Position.offset_le_after
    (p : Position)
    (text : List Char) :
    p.offset ≤ (p.after text).offset := by
  rw [offset_after]
  exact Nat.le_add_right _ _

/- A token with characters takes bytes. -/
theorem Position.offset_lt_after
    {text : List Char}
    (p : Position)
    (hSome : text ≠ []) :
    p.offset < (p.after text).offset := by
  cases text with
  | nil => exact absurd rfl hSome
  | cons c text =>
      have hStep : p.offset < (p.step c).offset :=
        Nat.lt_add_of_pos_right c.utf8Size_pos
      exact Nat.lt_of_lt_of_le hStep
        ((p.step c).offset_le_after text)

theorem Writes.source_ne_nil
    {source rest : List Char}
    {x : Spelling}
    (hWrites : Writes rest source x) :
    source ≠ [] := by
  cases hWrites with
  | punctuation => simp
  | word hSome => exact hSome
  | string => simp

namespace Tiling

variable {p : Position}
variable {text : List Char}
variable {ts : List Token}
variable {ds : List Diagnostic}

/- Every token takes bytes of the text. -/
theorem bounds
    (hTiling : Tiling p text ts ds) :
    ∀ t ∈ ts,
      p.offset ≤ t.span.start
        ∧ t.span.start < t.span.stop
        ∧ t.span.stop ≤ (p.after text).offset := by
  induction hTiling with
  | done => simp
  | openComment => simp
  | openString =>
      rename_i p gap body text _ _
      intro t ht
      rw [List.mem_singleton.mp ht, Position.after_append]
      refine ⟨p.offset_le_after gap, ?_, Nat.le_refl _⟩
      exact Position.offset_lt_after _ (by simp)
  | token _ hWrites _ ih =>
      rename_i p gap source rest x ts ds _ _
      intro t ht
      rw [Position.after_append, Position.after_append]
      rcases List.mem_cons.mp ht with rfl | ht
      · refine ⟨p.offset_le_after gap, ?_, ?_⟩
        · exact Position.offset_lt_after _ hWrites.source_ne_nil
        · exact Position.offset_le_after _ rest
      · rcases ih t ht with ⟨hStart, hMore, hStop⟩
        refine ⟨?_, hMore, hStop⟩
        apply Nat.le_trans _ hStart
        rw [← Position.after_append]
        exact p.offset_le_after _

/- A token ends before the next one starts. -/
theorem pairwise
    (hTiling : Tiling p text ts ds) :
    ts.Pairwise fun s t => s.span.stop ≤ t.span.start := by
  induction hTiling with
  | done => exact .nil
  | openComment => exact .nil
  | openString => exact List.pairwise_singleton _ _
  | token _ _ hRest ih =>
      refine .cons ?_ ih
      intro t ht
      exact (hRest.bounds t ht).1

end Tiling

/-
  What stands in the place of a token: `slice` after `before`
  and before `after`, in a text that begins at a position.
-/
structure Token.Stands
    (t : Token)
    (p : Position)
    (before slice after : List Char) : Prop where
  start :
    t.span.start
      = p.offset + (String.ofList before).utf8ByteSize
  stop :
    t.span.stop
      = p.offset + (String.ofList (before ++ slice)).utf8ByteSize
  text : t.kind ≠ .str → t.text.toList = slice
  word :
    t.kind = .ident ∨ t.kind = .number →
      slice ≠ []
        ∧ (∀ c ∈ slice, isDelimiter c = false)
        ∧ Word.holdsComment slice = false
        ∧ wordKind slice = t.kind
        ∧ StopsWord after
  string :
    t.kind = .str →
      ∃ closed body,
        Content closed body t.text.toList
          ∧ slice = '"' :: (body ++ if closed then ['"'] else [])
          ∧ (closed = false → after = [])

/- A token that is written in a place stands there. -/
theorem Writes.stands
    {source rest : List Char}
    {x : Spelling}
    (p : Position)
    (gap : List Char)
    (hWrites : Writes rest source x) :
    (x.token (p.after gap) source).Stands p gap source rest := by
  have hStart := p.offset_after gap
  have hStop := p.offset_after (gap ++ source)
  rw [Position.after_append] at hStop
  cases hWrites with
  | punctuation hKind =>
      have hScalar := (plain_of_punctuation hKind).1
      refine ⟨hStart, hStop, ?_, ?_, ?_⟩
      · intro _
        exact String.toList_ofList
      · rintro (rfl | rfl)
        · simp [TokenKind.isScalar] at hScalar
        · simp [TokenKind.isScalar] at hScalar
      · rintro rfl
        simp [TokenKind.isScalar] at hScalar
  | word hSome hPlain hNone hStops =>
      refine ⟨hStart, hStop, ?_, ?_, ?_⟩
      · intro _
        exact String.toList_ofList
      · intro _
        exact ⟨hSome, hPlain, hNone.holdsComment_eq, rfl, hStops⟩
      · intro hString
        simp only [Spelling.token, wordKind] at hString
        split at hString <;> simp at hString
  | string hContent =>
      refine ⟨hStart, hStop, ?_, ?_, ?_⟩
      · intro hString
        exact absurd rfl hString
      · intro hWord
        simp [Spelling.token] at hWord
      · intro _
        refine ⟨true, _, ?_, rfl, by simp⟩
        simpa [Spelling.token] using hContent

/- What follows a text stands in a longer one. -/
theorem Token.Stands.later
    {t : Token}
    {p : Position}
    {before slice after : List Char}
    (front : List Char)
    (hStands : t.Stands (p.after front) before slice after) :
    t.Stands p (front ++ before) slice after where
  start := by
    rw [hStands.start, p.offset_after, Nat.add_assoc,
      String.ofList_append, String.utf8ByteSize_append]
  stop := by
    have hSize :
        (String.ofList (front ++ (before ++ slice))).utf8ByteSize
          = (String.ofList front).utf8ByteSize
              + (String.ofList (before ++ slice)).utf8ByteSize := by
      rw [String.ofList_append, String.utf8ByteSize_append]
    rw [hStands.stop, p.offset_after, Nat.add_assoc,
      List.append_assoc, hSize]
  text := hStands.text
  word := hStands.word
  string := hStands.string

/- Every token of a tiling stands in the text. -/
theorem Tiling.stands
    {p : Position}
    {text : List Char}
    {ts : List Token}
    {ds : List Diagnostic}
    (hTiling : Tiling p text ts ds) :
    ∀ t ∈ ts,
      ∃ before slice after,
        text = before ++ (slice ++ after)
          ∧ t.Stands p before slice after := by
  induction hTiling with
  | done => simp
  | openComment => simp
  | openString _ hContent =>
      rename_i p gap body text _
      intro t ht
      rw [List.mem_singleton.mp ht]
      refine ⟨gap, '"' :: body, [], by simp, ?_⟩
      have hStop := p.offset_after (gap ++ '"' :: body)
      rw [Position.after_append] at hStop
      refine ⟨p.offset_after gap, hStop, ?_, ?_, ?_⟩
      · intro hString
        exact absurd rfl hString
      · intro hWord
        simp [Spelling.token] at hWord
      · intro _
        refine ⟨false, body, ?_, by simp, by simp⟩
        simpa [Spelling.token] using hContent
  | token _ hWrites _ ih =>
      rename_i p gap source rest x ts ds _ _
      intro t ht
      rcases List.mem_cons.mp ht with rfl | ht
      · exact ⟨gap, source, rest, rfl, hWrites.stands p gap⟩
      · rcases ih t ht with ⟨before, slice, after, hRest, hStands⟩
        rw [← Position.after_append] at hStands
        refine ⟨gap ++ source ++ before, slice, after, ?_,
          hStands.later _⟩
        rw [hRest]
        simp

/- A brace or parenthesis is one character. -/
theorem Tiling.punctuation
    {p : Position}
    {text : List Char}
    {ts : List Token}
    {ds : List Diagnostic}
    (hTiling : Tiling p text ts ds) :
    ∀ t ∈ ts,
      t.kind.isScalar = false →
        ∃ c,
          TokenKind.ofPunctuation? c = some t.kind
            ∧ t.text = String.ofList [c] := by
  induction hTiling with
  | done => simp
  | openComment => simp
  | openString =>
      intro t ht hKind
      rw [List.mem_singleton.mp ht] at hKind
      simp [Spelling.token, TokenKind.isScalar] at hKind
  | token _ hWrites _ ih =>
      intro t ht hKind
      rcases List.mem_cons.mp ht with rfl | ht
      · cases hWrites with
        | punctuation hMark => exact ⟨_, hMark, rfl⟩
        | word =>
            simp only [Spelling.token, wordKind] at hKind
            split at hKind <;> simp [TokenKind.isScalar] at hKind
        | string =>
            simp [Spelling.token, TokenKind.isScalar] at hKind
      · exact ih t ht hKind

/- A text has one problem at most. -/
theorem Tiling.length_problems_le
    {p : Position}
    {text : List Char}
    {ts : List Token}
    {ds : List Diagnostic}
    (hTiling : Tiling p text ts ds) :
    ds.length ≤ 1 := by
  induction hTiling with
  | done => exact Nat.zero_le 1
  | openComment => exact Nat.le_refl 1
  | openString => exact Nat.le_refl 1
  | token _ _ _ ih => exact ih

------------------------------------------------------------
-- Whole Texts
------------------------------------------------------------

/- The tokens of a text are those of its lexer. -/
theorem tokenize_eq
    (source : String) :
    tokenize source
      = ((Lexer.ofSource source).tokens,
          (Lexer.ofSource source).problems) :=
  rfl

/- The tokens of a text tile it. -/
theorem tiling_tokenize
    (source : String) :
    Tiling Position.first source.toList
      (tokenize source).1 (tokenize source).2 :=
  (Lexer.ofSource source).tiling rfl

/-
  Lexing loses nothing. Tokens take bytes of the text one
  after the other, between them there is layout only, and
  each says what stands in its place. There is no other way
  to take the text apart.
-/
theorem tokenize_tiles
    (source : String) :
    Tiling Position.first source.toList
        (tokenize source).1 (tokenize source).2
      ∧ (∀ ts ds,
          Tiling Position.first source.toList ts ds →
            tokenize source = (ts, ds))
      ∧ (tokenize source).1.Pairwise
          (fun s t => s.span.stop ≤ t.span.start)
      ∧ ∀ t ∈ (tokenize source).1,
          t.span.start < t.span.stop
            ∧ t.span.stop ≤ source.utf8ByteSize
            ∧ ∃ before slice after,
                source.toList = before ++ (slice ++ after)
                  ∧ t.Stands Position.first
                      before slice after := by
  have hTiling := tiling_tokenize source
  refine ⟨hTiling, ?_, hTiling.pairwise, ?_⟩
  · intro ts ds hOther
    rcases hOther.unique (l := .ofSource source) rfl rfl rfl with
      ⟨hTokens, hProblems⟩
    rw [tokenize_eq, hTokens, hProblems]
  · intro t ht
    rcases hTiling.bounds t ht with ⟨-, hSome, hStop⟩
    rw [Position.offset_after, String.ofList_toList] at hStop
    refine ⟨hSome, ?_, hTiling.stands t ht⟩
    simpa [Position.first] using hStop

end BlockScript
