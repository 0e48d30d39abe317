import BlockScript.Proofs.Spelling

/-
  This file says what layout, strings and words are, without
  the lexer, and shows that the lexer splits off exactly
  these: the layout in front of a text, and the token after
  it.

  Key definitions include:
    * `Piece`
    * `Gap`
    * `Content`
    * `Writes`

  Key theorems include:
    * `gap_of_splitLayout`
    * `splitLayout_of_gap`
    * `writes_of_lexeme`
    * `lexeme_of_writes`
-/

namespace BlockScript

------------------------------------------------------------
-- Layout
------------------------------------------------------------

/-
  One piece of layout: a blank, a line comment with its line
  feed, or a comment up to the first mark that closes it.
-/
inductive Piece : List Char → Prop where
  | blank
      {c : Char}
      (hBlank : Text.isBlank c = true) :
      Piece [c]
  | line
      {body : List Char}
      (hFeed : '\n' ∉ body) :
      Piece ('/' :: '/' :: (body ++ ['\n']))
  | comment
      {body : List Char}
      (hMark : ¬ ['*', '/'] <:+: body) :
      Piece ('/' :: '*' :: (body ++ ['*', '/']))

/-
  Pieces of layout in a row, before `rest`. A line comment
  without a line feed goes up to the end of the text.
-/
inductive Gap : List Char → List Char → Prop where
  | nil
      {rest : List Char} :
      Gap [] rest
  | piece
      {piece gap rest : List Char}
      (hPiece : Piece piece)
      (hGap : Gap gap rest) :
      Gap (piece ++ gap) rest
  | lastLine
      {body : List Char}
      (hFeed : '\n' ∉ body) :
      Gap ('/' :: '/' :: body) []

/- A mark stands at the front of a text or further on. -/
theorem mark_cons_iff
    {c : Char}
    {rest : List Char} :
    ['*', '/'] <:+: c :: rest
      ↔ (c = '*' ∧ ∃ more, rest = '/' :: more)
        ∨ ['*', '/'] <:+: rest := by
  rw [List.infix_cons_iff, List.cons_prefix_cons]
  constructor
  · rintro (⟨rfl, more, hMore⟩ | hRest)
    · exact .inl ⟨rfl, more, hMore.symm⟩
    · exact .inr hRest
  · rintro (⟨rfl, more, rfl⟩ | hRest)
    · exact .inl ⟨rfl, more, rfl⟩
    · exact .inr hRest

/- A comment goes up to the first mark. -/
theorem splitComment_of_mark
    {body : List Char}
    (seen rest : List Char)
    (hMark : ¬ ['*', '/'] <:+: body) :
    splitComment seen (body ++ '*' :: '/' :: rest)
      = some (seen.reverse ++ (body ++ ['*', '/']), rest) := by
  induction body generalizing seen with
  | nil => simp [splitComment]
  | cons c body ih =>
      rw [mark_cons_iff, not_or] at hMark
      rw [List.cons_append, splitComment]
      · rw [ih (c :: seen) hMark.2]
        simp
      · intro more hStar hSlash
        apply hMark.1
        refine ⟨hStar, ?_⟩
        cases body with
        | nil => simp at hSlash
        | cons d body =>
            rw [List.cons_append, List.cons.injEq] at hSlash
            exact ⟨body, by rw [hSlash.1]⟩

/- Without a mark a comment is never closed. -/
theorem splitComment_of_no_mark
    {body : List Char}
    (seen : List Char)
    (hMark : ¬ ['*', '/'] <:+: body) :
    splitComment seen body = none := by
  induction body generalizing seen with
  | nil => rfl
  | cons c body ih =>
      rw [mark_cons_iff, not_or] at hMark
      rw [splitComment]
      · exact ih (c :: seen) hMark.2
      · intro more hStar hSlash
        exact hMark.1 ⟨hStar, more, hSlash⟩

/- A text has no mark, or there is a first one. -/
theorem first_mark
    (text : List Char) :
    ¬ ['*', '/'] <:+: text
      ∨ ∃ body rest,
          text = body ++ '*' :: '/' :: rest
            ∧ ¬ ['*', '/'] <:+: body := by
  induction text with
  | nil => exact .inl (by simp)
  | cons c text ih =>
      by_cases hHere : c = '*' ∧ ∃ more, text = '/' :: more
      · rcases hHere with ⟨rfl, more, rfl⟩
        exact .inr ⟨[], more, rfl, by simp⟩
      · rcases ih with hNone | ⟨body, rest, rfl, hBody⟩
        · left
          rw [mark_cons_iff, not_or]
          exact ⟨hHere, hNone⟩
        · right
          refine ⟨c :: body, rest, rfl, ?_⟩
          rw [mark_cons_iff, not_or]
          refine ⟨?_, hBody⟩
          rintro ⟨rfl, more, rfl⟩
          exact hHere ⟨rfl, _, rfl⟩

/- A piece of layout is split off as a whole. -/
theorem layoutPiece?_of_piece
    {piece : List Char}
    (rest : List Char)
    (hPiece : Piece piece) :
    layoutPiece? (piece ++ rest) = some (piece, rest) := by
  cases hPiece with
  | blank hBlank => exact layoutPiece?_blank rest hBlank
  | line hFeed =>
      rw [List.cons_append, List.cons_append, List.append_assoc,
        List.singleton_append, layoutPiece?_line,
        splitLine_fed rest hFeed]
  | comment hMark =>
      rw [List.cons_append, List.cons_append, List.append_assoc]
      exact splitComment_of_mark ['*', '/'] rest hMark

/- What is split off is a piece, or a line that is the last. -/
theorem piece_of_layoutPiece?
    {text piece rest : List Char}
    (hSplit : layoutPiece? text = some (piece, rest)) :
    Piece piece
      ∨ rest = []
        ∧ ∃ body, '\n' ∉ body ∧ piece = '/' :: '/' :: body := by
  rcases layoutPiece?_cases hSplit with
    ⟨c, hBlank, -, rfl⟩ | ⟨body, -, rfl, rfl⟩
      | ⟨body, rfl, hComment⟩
  · exact .inl (.blank hBlank)
  · by_cases hFeed : '\n' ∈ body
    · rcases List.eq_append_cons_of_mem hFeed with
        ⟨line, more, rfl, hLine⟩
      rw [splitLine_fed more hLine]
      exact .inl (.line hLine)
    · rw [splitLine_unfed hFeed]
      exact .inr ⟨rfl, body, hFeed, rfl⟩
  · rcases first_mark body with hNone | ⟨inner, more, rfl, hInner⟩
    · simp [splitComment_of_no_mark _ hNone] at hComment
    · rw [splitComment_of_mark _ _ hInner] at hComment
      simp only [Option.some.injEq, Prod.mk.injEq] at hComment
      rw [← hComment.1]
      exact .inl (.comment hInner)

/- All layout in front is a gap before something else. -/
theorem gap_of_splitLayout
    (seen text : List Char) :
    ∃ gap rest,
      splitLayout seen text = (seen.reverse ++ gap, rest)
        ∧ text = gap ++ rest
        ∧ Gap gap rest
        ∧ layoutPiece? rest = none := by
  fun_induction splitLayout seen text with
  | case1 seen text hNone =>
      exact ⟨[], text, by simp, rfl, .nil, hNone⟩
  | case2 seen text piece rest hSplit ih =>
      rcases ih with ⟨gap, more, hMore, rfl, hGap, hNone⟩
      have hText := layoutPiece?_append hSplit
      refine ⟨piece ++ gap, more, ?_, ?_, ?_, hNone⟩
      · rw [hMore]
        simp
      · rw [List.append_assoc, hText]
      · rcases piece_of_layoutPiece? hSplit with
          hPiece | ⟨hEnd, body, hFeed, rfl⟩
        · exact .piece hPiece hGap
        · rcases List.append_eq_nil_iff.mp hEnd with ⟨rfl, rfl⟩
          rw [List.append_nil]
          exact .lastLine hFeed

/- A gap before something else is all layout in front. -/
theorem splitLayout_of_gap
    {gap rest : List Char}
    (seen : List Char)
    (hGap : Gap gap rest)
    (hNone : layoutPiece? rest = none) :
    splitLayout seen (gap ++ rest) = (seen.reverse ++ gap, rest) := by
  induction hGap generalizing seen with
  | nil =>
      rw [List.nil_append, splitLayout_of_none seen hNone,
        List.append_nil]
  | piece hPiece _ ih =>
      rw [List.append_assoc, splitLayout_of_some seen
        (layoutPiece?_of_piece _ hPiece), ih _ hNone]
      simp
  | lastLine hFeed =>
      rename_i body
      have hLine :
          layoutPiece? ('/' :: '/' :: body)
            = some ('/' :: '/' :: body, []) := by
        rw [layoutPiece?_line, splitLine_unfed hFeed]
      rw [List.append_nil, splitLayout_of_some seen hLine,
        splitLayout_of_none _ rfl]
      simp

------------------------------------------------------------
-- Strings
------------------------------------------------------------

/-
  The body of a string and the text it stands for. A
  backslash before a quote or a backslash stands for nothing
  itself, and every quote in a body has one. Only where a
  string is not closed may a body end with a backslash of its
  own.
-/
inductive Content (closed : Bool) :
    List Char → List Char → Prop where
  | nil : Content closed [] []
  | lastBackslash
      (hOpen : closed = false) :
      Content closed ['\\'] ['\\']
  | escape
      {c : Char}
      {body text : List Char}
      (hEscaped : c = '"' ∨ c = '\\')
      (hRest : Content closed body text) :
      Content closed ('\\' :: c :: body) (c :: text)
  | backslash
      {c : Char}
      {body text : List Char}
      (hQuote : c ≠ '"')
      (hBackslash : c ≠ '\\')
      (hRest : Content closed (c :: body) text) :
      Content closed ('\\' :: c :: body) ('\\' :: text)
  | plain
      {c : Char}
      {body text : List Char}
      (hQuote : c ≠ '"')
      (hBackslash : c ≠ '\\')
      (hRest : Content closed body text) :
      Content closed (c :: body) (c :: text)

/- A character that begins no escape stands for itself. -/
theorem scanString_plain
    {c : Char}
    {rest : List Char}
    (text seen : List Char)
    (hQuote : c ≠ '"')
    (hEscape :
      c = '\\' →
        ∀ d, rest.head? = some d → d ≠ '"' ∧ d ≠ '\\') :
    scanString text seen (c :: rest)
      = scanString (c :: text) (c :: seen) rest := by
  rw [scanString]
  · exact hQuote
  · intro more hBackslash hRest
    exact (hEscape hBackslash '"' (by rw [hRest]; rfl)).1 rfl
  · intro more hBackslash hRest
    exact (hEscape hBackslash '\\' (by rw [hRest]; rfl)).2 rfl

/- A body is read as its text, up to the closing quote. -/
theorem scanString_of_content
    {closed : Bool}
    {body text : List Char}
    (before seen rest : List Char)
    (hContent : Content closed body text)
    (hRest : closed = true ∨ rest = []) :
    scanString before seen
        (body ++ (if closed then '"' :: rest else rest))
      = (⟨.str, before.reverse ++ text,
            seen.reverse
              ++ (body ++ (if closed then ['"'] else [])),
            closed⟩,
          rest) := by
  induction hContent generalizing before seen with
  | nil =>
      cases closed with
      | true => simp [scanString]
      | false =>
          have hNil : rest = [] := by simpa using hRest
          simp [hNil, scanString]
  | lastBackslash hOpen =>
      have hNil : rest = [] := by simpa [hOpen] using hRest
      simp [hOpen, hNil, scanString]
  | escape hEscaped _ ih =>
      rcases hEscaped with rfl | rfl
      · rw [List.cons_append, List.cons_append, scanString, ih]
        simp
      · rw [List.cons_append, List.cons_append, scanString, ih]
        simp
  | backslash hQuote hBackslash _ ih =>
      rw [List.cons_append, scanString_plain, ih]
      · simp
      · decide
      · intro _ d hHead
        rw [List.cons_append, List.head?_cons,
          Option.some.injEq] at hHead
        rw [← hHead]
        exact ⟨hQuote, hBackslash⟩
  | plain hQuote hBackslash _ ih =>
      rw [List.cons_append, scanString_plain _ _ hQuote, ih]
      · simp
      · intro hSame
        exact absurd hSame hBackslash

/- What is read as a string is a body with its text. -/
theorem content_of_scanString
    (before seen rest : List Char) :
    ∃ closed body text after,
      scanString before seen rest
          = (⟨.str, before.reverse ++ text,
                seen.reverse
                  ++ (body ++ (if closed then ['"'] else [])),
                closed⟩,
              after)
        ∧ rest
            = body ++ (if closed then '"' :: after else after)
        ∧ Content closed body text
        ∧ (closed = true ∨ after = []) := by
  fun_induction scanString before seen rest with
  | case1 before seen rest =>
      exact ⟨true, [], [], rest, by simp, rfl, .nil, .inl rfl⟩
  | case2 before seen rest ih =>
      rcases ih with
        ⟨closed, body, text, after, hScan, rfl, hContent, hEnd⟩
      refine ⟨closed, '\\' :: '"' :: body, '"' :: text, after,
        ?_, rfl, .escape (.inl rfl) hContent, hEnd⟩
      rw [hScan]
      simp
  | case3 before seen rest ih =>
      rcases ih with
        ⟨closed, body, text, after, hScan, rfl, hContent, hEnd⟩
      refine ⟨closed, '\\' :: '\\' :: body, '\\' :: text, after,
        ?_, rfl, .escape (.inr rfl) hContent, hEnd⟩
      rw [hScan]
      simp
  | case4 before seen c rest hQuote hEscape hEscape' ih =>
      rcases ih with
        ⟨closed, body, text, after, hScan, rfl, hContent, hEnd⟩
      refine ⟨closed, c :: body, c :: text, after, ?_, rfl, ?_,
        hEnd⟩
      · rw [hScan]
        simp
      by_cases hBackslash : c = '\\'
      · subst hBackslash
        -- What follows the backslash decides what it is.
        cases body with
        | nil =>
            cases closed with
            | true => exact absurd rfl (hEscape after rfl)
            | false =>
                cases hContent with
                | nil => exact .lastBackslash rfl
        | cons d body =>
            apply Content.backslash _ _ hContent
            · rintro rfl
              exact hEscape _ rfl rfl
            · rintro rfl
              exact hEscape' _ rfl rfl
      · exact .plain hQuote hBackslash hContent
  | case5 before seen =>
      exact ⟨false, [], [], [], by simp, rfl, .nil, .inr rfl⟩

------------------------------------------------------------
-- Words
------------------------------------------------------------

/- No comment starts in a word that stands before `rest`. -/
def Uncommented (rest : List Char) : List Char → Prop
  | [] => True
  | c :: word =>
      startsComment (c :: (word ++ rest)) = false
        ∧ Uncommented rest word

/- A comment that starts in a text starts in a longer one. -/
theorem startsComment_of_append
    {text more : List Char}
    (hNone : startsComment (text ++ more) = false) :
    startsComment text = false := by
  unfold startsComment at *
  split <;> simp_all

/- Such a word holds no comment by itself. -/
theorem Uncommented.holdsComment_eq
    {word rest : List Char}
    (hNone : Uncommented rest word) :
    Word.holdsComment word = false := by
  induction word with
  | nil => rfl
  | cons c word ih =>
      have hFirst : startsComment ((c :: word) ++ rest) = false :=
        hNone.1
      rw [Word.holdsComment, startsComment_of_append hFirst,
        ih hNone.2]
      rfl

/- What ends a word: a delimiter, a comment or nothing. -/
def StopsWord (rest : List Char) : Prop :=
  ∀ c, rest.head? = some c →
    isDelimiter c = true ∨ startsComment rest = true

/- A word is split off before what ends it. -/
theorem splitWord_of_word
    {word rest : List Char}
    (seen : List Char)
    (hPlain : ∀ c ∈ word, isDelimiter c = false)
    (hNone : Uncommented rest word)
    (hStop : StopsWord rest) :
    splitWord seen (word ++ rest)
      = (seen.reverse ++ word, rest) := by
  induction word generalizing seen with
  | nil =>
      cases rest with
      | nil => simp [splitWord]
      | cons c rest =>
          have hEnd :
              (isDelimiter c || startsComment (c :: rest))
                = true := by
            simpa using hStop c rfl
          simp [splitWord, hEnd]
  | cons c word ih =>
      have hFirst := hPlain c List.mem_cons_self
      rw [List.cons_append, splitWord, hFirst, hNone.1,
        Bool.or_self, if_neg Bool.false_ne_true,
        ih (c :: seen) _ hNone.2]
      · simp
      · intro d hd
        exact hPlain d (List.mem_cons_of_mem c hd)

/- What is split off goes up to what ends a word. -/
theorem word_of_splitWord
    (seen text : List Char) :
    ∃ word rest,
      splitWord seen text = (seen.reverse ++ word, rest)
        ∧ text = word ++ rest
        ∧ (∀ c ∈ word, isDelimiter c = false)
        ∧ Uncommented rest word
        ∧ StopsWord rest := by
  fun_induction splitWord seen text with
  | case1 seen =>
      refine ⟨[], [], by simp, rfl, by simp, trivial, ?_⟩
      intro c hHead
      simp at hHead
  | case2 seen c rest hEnd =>
      refine ⟨[], c :: rest, by simp, rfl, by simp, trivial, ?_⟩
      intro d hHead
      rw [List.head?_cons, Option.some.injEq] at hHead
      rw [← hHead]
      simpa using hEnd
  | case3 seen c rest hEnd ih =>
      rcases ih with
        ⟨word, more, hSplit, rfl, hPlain, hNone, hStop⟩
      rw [Bool.or_eq_true, not_or, Bool.not_eq_true,
        Bool.not_eq_true] at hEnd
      refine ⟨c :: word, more, ?_, rfl, ?_, ⟨hEnd.2, hNone⟩,
        hStop⟩
      · rw [hSplit]
        simp
      · intro d hd
        rcases List.mem_cons.mp hd with rfl | hd
        · exact hEnd.1
        · exact hPlain d hd

------------------------------------------------------------
-- Tokens
------------------------------------------------------------

/-
  How a token is written before `rest`: a brace or parenthesis
  by itself, a word that cannot go on, or a closed string.
-/
inductive Writes (rest : List Char) :
    List Char → Spelling → Prop where
  | punctuation
      {c : Char}
      {kind : TokenKind}
      (hKind : TokenKind.ofPunctuation? c = some kind) :
      Writes rest [c] ⟨kind, String.ofList [c]⟩
  | word
      {word : List Char}
      (hSome : word ≠ [])
      (hPlain : ∀ c ∈ word, isDelimiter c = false)
      (hNone : Uncommented rest word)
      (hStop : StopsWord rest) :
      Writes rest word ⟨wordKind word, String.ofList word⟩
  | string
      {body text : List Char}
      (hContent : Content true body text) :
      Writes rest ('"' :: (body ++ ['"']))
        ⟨.str, String.ofList text⟩

/- No character of a word is a mark by itself. -/
theorem isDelimiter_eq_false_iff
    {c : Char} :
    isDelimiter c = false
      ↔ Text.isBlank c = false
        ∧ TokenKind.ofPunctuation? c = none
        ∧ c ≠ '"' := by
  simp [isDelimiter, and_assoc]

/- Punctuation is no value, neither blank nor a slash. -/
theorem plain_of_punctuation
    {c : Char}
    {kind : TokenKind}
    (hKind : TokenKind.ofPunctuation? c = some kind) :
    kind.isScalar = false
      ∧ Text.isBlank c = false
      ∧ c ≠ '/' := by
  unfold TokenKind.ofPunctuation? at hKind
  split at hKind
  · rw [← Option.some.inj hKind]
    decide
  · rw [← Option.some.inj hKind]
    decide
  · rw [← Option.some.inj hKind]
    decide
  · rw [← Option.some.inj hKind]
    decide
  · simp at hKind

/- A token that is written so is read so. -/
theorem lexeme_of_writes
    {source rest : List Char}
    {x : Spelling}
    (hWrites : Writes rest source x) :
    ∃ c tail,
      source = c :: tail
        ∧ Text.isBlank c = false
        ∧ startsComment (c :: (tail ++ rest)) = false
        ∧ lexeme c (tail ++ rest)
            = (⟨x.kind, x.text.toList, c :: tail, true⟩, rest) := by
  cases hWrites with
  | punctuation hKind =>
      rename_i c kind
      rcases plain_of_punctuation hKind with ⟨-, hBlank, hSlash⟩
      refine ⟨c, [], rfl, hBlank, ?_, ?_⟩
      · simp [startsComment, hSlash]
      · simp [lexeme, hKind]
  | word hSome hPlain hNone hStop =>
      cases source with
      | nil => exact absurd rfl hSome
      | cons c tail =>
          rcases isDelimiter_eq_false_iff.mp
              (hPlain c List.mem_cons_self) with
            ⟨hBlank, hKind, hQuote⟩
          have hSplit :=
            splitWord_of_word [c]
              (fun d hd => hPlain d (List.mem_cons_of_mem c hd))
              hNone.2 hStop
          refine ⟨c, tail, rfl, hBlank, hNone.1, ?_⟩
          simp [lexeme, hKind, hQuote, hSplit]
  | string hContent =>
      rename_i body text
      have hScan :=
        scanString_of_content [] ['"'] rest hContent (.inl rfl)
      refine ⟨'"', body ++ ['"'], rfl, by decide, rfl, ?_⟩
      simp only [if_true] at hScan
      rw [List.append_assoc, List.singleton_append]
      simpa [lexeme, TokenKind.ofPunctuation?] using hScan

/-
  What is read as a token is written so, unless it is a
  string that the end of the text cuts off.
-/
theorem writes_of_lexeme
    {c : Char}
    {tail : List Char}
    (hBlank : Text.isBlank c = false)
    (hComment : startsComment (c :: tail) = false) :
    (∃ source rest x,
      lexeme c tail = (⟨x.kind, x.text.toList, source, true⟩, rest)
        ∧ c :: tail = source ++ rest
        ∧ Writes rest source x)
      ∨ ∃ text,
          c = '"'
            ∧ lexeme c tail
                = (⟨.str, text, c :: tail, false⟩, [])
            ∧ Content false tail text := by
  unfold lexeme
  rcases hKind : TokenKind.ofPunctuation? c with _ | kind
  · simp only
    by_cases hQuote : c = '"'
    · rw [if_pos hQuote]
      rcases content_of_scanString [] [c] tail with
        ⟨closed, body, text, after, hScan, rfl, hContent, hEnd⟩
      rw [hScan]
      cases closed with
      | true =>
          left
          refine ⟨'"' :: (body ++ ['"']), after,
            ⟨.str, String.ofList text⟩, ?_, ?_, .string hContent⟩
          · simp [hQuote]
          · simp [hQuote]
      | false =>
          right
          have hNil : after = [] := by simpa using hEnd
          refine ⟨text, hQuote, ?_, ?_⟩
          · simp [hNil]
          · simpa [hNil] using hContent
    · rw [if_neg hQuote]
      rcases word_of_splitWord [c] tail with
        ⟨word, rest, hSplit, rfl, hPlain, hNone, hStop⟩
      rw [hSplit]
      left
      refine ⟨c :: word, rest,
        ⟨wordKind (c :: word), String.ofList (c :: word)⟩,
        ?_, rfl, ?_⟩
      · simp
      · refine Writes.word (by simp) ?_ ⟨hComment, hNone⟩ hStop
        intro d hd
        rcases List.mem_cons.mp hd with rfl | hd
        · exact isDelimiter_eq_false_iff.mpr
            ⟨hBlank, hKind, hQuote⟩
        · exact hPlain d hd
  · left
    exact ⟨[c], tail, ⟨kind, String.ofList [c]⟩, by simp, rfl,
      .punctuation hKind⟩

end BlockScript
