import BlockScript.Proofs.Remaining

/-
  This file shows what becomes of a text that goes on after
  its end. After a blank, the tokens of the text are the same
  as before; after a line feed, what follows the text is read
  by itself.

  Key definitions include:
    * `Lexer.followedBy`
    * `Lexer.resume`

  Key theorems include:
    * `lexeme_followed`
    * `splitLayout_followed`
    * `Lexer.next_followed`
    * `Lexer.next_resumed`
-/

namespace BlockScript

------------------------------------------------------------
-- Positions
------------------------------------------------------------

namespace Position

/- A text moves the offset by its bytes. -/
theorem offset_after
    (p : Position)
    (text : List Char) :
    (p.after text).offset
      = p.offset + (String.ofList text).utf8ByteSize := by
  induction text generalizing p with
  | nil => rfl
  | cons c text ih =>
      rw [after_cons, ih, ← List.singleton_append,
        String.ofList_append, String.utf8ByteSize_append,
        ← String.singleton_eq_ofList,
        String.utf8ByteSize_singleton, step]
      exact Nat.add_assoc _ _ _

/- A text moves the line by its line feeds. -/
theorem line_after
    (p : Position)
    (text : List Char) :
    (p.after text).location.line
      = p.location.line + text.count '\n' := by
  induction text generalizing p with
  | nil => rfl
  | cons c text ih =>
      rw [after_cons, ih, List.count_cons]
      simp only [step, Location.step]
      by_cases hFeed : c = '\n'
      · simp [hFeed]
        omega
      · simp [hFeed]

end Position

------------------------------------------------------------
-- Comments
------------------------------------------------------------

/- A blank is none of the characters that are not blank. -/
theorem ne_of_isBlank
    {s c : Char}
    (hBlank : Text.isBlank s = true)
    (hOther : Text.isBlank c = false) :
    s ≠ c := by
  rintro rfl
  simp [hBlank] at hOther

/- A blank after a text starts no comment with it. -/
theorem startsComment_followed
    {s : Char}
    (text more : List Char)
    (hBlank : Text.isBlank s = true) :
    startsComment (text ++ s :: more) = startsComment text := by
  have hSlash : s ≠ '/' := ne_of_isBlank hBlank (by decide)
  have hStar : s ≠ '*' := ne_of_isBlank hBlank (by decide)
  match text with
  | [] => simp [startsComment, hSlash]
  | [c] => simp [startsComment, hSlash, hStar]
  | c :: d :: rest =>
      simp only [List.cons_append]
      unfold startsComment
      split <;> simp_all

/- A comment that is closed ends where it did before. -/
theorem splitComment_followed
    {seen text comment rest : List Char}
    (more : List Char)
    (hSplit : splitComment seen text = some (comment, rest)) :
    splitComment seen (text ++ more)
      = some (comment, rest ++ more) := by
  fun_induction splitComment seen text with
  | case1 seen rest' =>
      simp only [Option.some.injEq, Prod.mk.injEq] at hSplit
      obtain ⟨rfl, rfl⟩ := hSplit
      simp [splitComment]
  | case2 seen c rest' hOther ih =>
      rw [List.cons_append, splitComment]
      · exact ih hSplit
      · intro tail hStar hSlash
        cases rest' with
        | nil => simp [splitComment] at hSplit
        | cons d rest' =>
            simp only [List.cons_append, List.cons.injEq]
              at hSlash
            exact hOther rest' hStar (by rw [hSlash.1])
  | case3 => simp at hSplit

/- A line goes up to its first line feed. -/
theorem splitLine_fed
    {line : List Char}
    (more : List Char)
    (hLine : '\n' ∉ line) :
    splitLine (line ++ '\n' :: more)
      = (line ++ ['\n'], more) := by
  have hAll : ∀ c ∈ line, (c != '\n') = true := by
    intro c hc
    simp only [bne_iff_ne, ne_eq]
    rintro rfl
    exact hLine hc
  simp [splitLine, List.takeWhile_append_of_pos hAll,
    List.dropWhile_append_of_pos hAll]

/- Without a line feed a line goes up to the end. -/
theorem splitLine_unfed
    {text : List Char}
    (hFeed : '\n' ∉ text) :
    splitLine text = (text, []) := by
  have hAll : ∀ c ∈ text, (c != '\n') = true := by
    intro c hc
    simp only [bne_iff_ne, ne_eq]
    rintro rfl
    exact hFeed hc
  have hDrop : (text ++ []).dropWhile (· != '\n') = [] :=
    List.dropWhile_append_of_pos hAll
  rw [List.append_nil] at hDrop
  have hTake : text.takeWhile (· != '\n') = text := by
    have hBoth :=
      List.takeWhile_append_dropWhile
        (p := (· != '\n')) (l := text)
    rwa [hDrop, List.append_nil] at hBoth
  simp [splitLine, hTake, hDrop]

------------------------------------------------------------
-- Layout
------------------------------------------------------------

theorem layoutPiece?_blank
    {c : Char}
    (rest : List Char)
    (hBlank : Text.isBlank c = true) :
    layoutPiece? (c :: rest) = some ([c], rest) :=
  if_pos hBlank

theorem layoutPiece?_line
    (rest : List Char) :
    layoutPiece? ('/' :: '/' :: rest)
      = some ('/' :: '/' :: (splitLine rest).1,
          (splitLine rest).2) :=
  rfl

theorem layoutPiece?_comment
    (rest : List Char) :
    layoutPiece? ('/' :: '*' :: rest)
      = splitComment ['*', '/'] rest :=
  rfl

/- What is neither blank nor a comment is no layout. -/
theorem layoutPiece?_none
    {c : Char}
    {rest : List Char}
    (hBlank : Text.isBlank c = false)
    (hComment : startsComment (c :: rest) = false) :
    layoutPiece? (c :: rest) = none := by
  unfold layoutPiece?
  simp only [hBlank, Bool.false_eq_true, if_false]
  split
  · simp [startsComment] at hComment
  · simp [startsComment] at hComment
  · rfl

/- What a piece of layout can be. -/
theorem layoutPiece?_cases
    {text piece rest : List Char}
    (hPiece : layoutPiece? text = some (piece, rest)) :
    (∃ c,
      Text.isBlank c = true
        ∧ text = c :: rest
        ∧ piece = [c])
      ∨ (∃ body,
          text = '/' :: '/' :: body
            ∧ piece = '/' :: '/' :: (splitLine body).1
            ∧ rest = (splitLine body).2)
      ∨ ∃ body,
          text = '/' :: '*' :: body
            ∧ splitComment ['*', '/'] body
                = some (piece, rest) := by
  unfold layoutPiece? at hPiece
  split at hPiece
  · simp at hPiece
  · rename_i c tail
    split at hPiece
    · rename_i hBlank
      simp only [Option.some.injEq, Prod.mk.injEq] at hPiece
      obtain ⟨rfl, rfl⟩ := hPiece
      exact .inl ⟨c, hBlank, rfl, rfl⟩
    · split at hPiece
      · simp only [Option.some.injEq, Prod.mk.injEq] at hPiece
        obtain ⟨rfl, rfl⟩ := hPiece
        exact .inr (.inl ⟨_, rfl, rfl, rfl⟩)
      · exact .inr (.inr ⟨_, rfl, hPiece⟩)
      · simp at hPiece

/-
  A piece of layout stays the same, unless it is a comment
  that the end of the text closed.
-/
theorem layoutPiece?_followed
    {text piece rest : List Char}
    (hPiece : layoutPiece? text = some (piece, rest)) :
    (∀ more,
      layoutPiece? (text ++ more) = some (piece, rest ++ more))
      ∨ rest = []
        ∧ ∀ more,
            layoutPiece? (text ++ '\n' :: more)
              = some (piece ++ ['\n'], more) := by
  rcases layoutPiece?_cases hPiece with
    ⟨c, hBlank, rfl, rfl⟩ | ⟨body, rfl, rfl, rfl⟩
      | ⟨body, rfl, hComment⟩
  · exact .inl fun more => layoutPiece?_blank _ hBlank
  · by_cases hFeed : '\n' ∈ body
    · obtain ⟨line, tail, rfl, hLine⟩ :=
        List.eq_append_cons_of_mem hFeed
      left
      intro more
      rw [List.cons_append, List.cons_append,
        layoutPiece?_line, List.append_assoc, List.cons_append,
        splitLine_fed _ hLine, splitLine_fed _ hLine]
    · right
      constructor
      · rw [splitLine_unfed hFeed]
      · intro more
        rw [List.cons_append, List.cons_append,
          layoutPiece?_line, splitLine_fed _ hFeed,
          splitLine_unfed hFeed]
        rfl
  · left
    intro more
    rw [List.cons_append, List.cons_append,
      layoutPiece?_comment]
    exact splitComment_followed more hComment

/- Layout read before stands in front. -/
theorem splitLayout_seen
    (seen before text : List Char) :
    splitLayout (seen ++ before) text
      = (before.reverse ++ (splitLayout seen text).1,
          (splitLayout seen text).2) := by
  fun_induction splitLayout seen text with
  | case1 seen text hPiece =>
      rw [splitLayout_of_none _ hPiece]
      simp
  | case2 seen text piece rest hPiece ih =>
      rw [splitLayout_of_some _ hPiece, ← List.append_assoc]
      exact ih

/-
  Layout before something else stays the same if a blank
  follows the text.
-/
theorem splitLayout_followed
    {c s : Char}
    {seen text gap tail : List Char}
    (more : List Char)
    (hBlank : Text.isBlank s = true)
    (hComment : startsComment (c :: tail) = false)
    (hSplit : splitLayout seen text = (gap, c :: tail)) :
    splitLayout seen (text ++ s :: more)
      = (gap, c :: (tail ++ s :: more)) := by
  fun_induction splitLayout seen text with
  | case1 seen text hPiece =>
      simp only [Prod.mk.injEq] at hSplit
      obtain ⟨rfl, rfl⟩ := hSplit
      have hOther : Text.isBlank c = false := by
        cases hc : Text.isBlank c with
        | false => rfl
        | true => simp [layoutPiece?_blank tail hc] at hPiece
      have hComment' :=
        startsComment_followed (c :: tail) more hBlank
      rw [hComment] at hComment'
      exact splitLayout_of_none _
        (layoutPiece?_none hOther hComment')
  | case2 seen text piece rest hPiece ih =>
      rcases layoutPiece?_followed hPiece with
        hSame | ⟨rfl, -⟩
      · rw [splitLayout_of_some _ (hSame _)]
        exact ih hSplit
      · rw [splitLayout_of_none _ rfl] at hSplit
        simp at hSplit

/-
  After nothing but layout and a line feed, what follows is
  split by itself.
-/
theorem splitLayout_resumed
    {seen text : List Char}
    (more : List Char)
    (hSplit : (splitLayout seen text).2 = []) :
    splitLayout seen (text ++ '\n' :: more)
      = (seen.reverse ++ text ++ '\n' :: (splitLayout [] more).1,
          (splitLayout [] more).2) := by
  have hFeed : Text.isBlank '\n' = true := by decide
  have hRest :
      ∀ seen,
        splitLayout seen more
          = (seen.reverse ++ (splitLayout [] more).1,
              (splitLayout [] more).2) := by
    intro seen
    have hSeen := splitLayout_seen [] seen more
    rwa [List.nil_append] at hSeen
  fun_induction splitLayout seen text with
  | case1 seen text hPiece =>
      simp only at hSplit
      subst hSplit
      rw [List.nil_append,
        splitLayout_of_some _ (layoutPiece?_blank _ hFeed),
        hRest]
      simp
  | case2 seen text piece rest hPiece ih =>
      have hText := layoutPiece?_append hPiece
      rcases layoutPiece?_followed hPiece with
        hSame | ⟨rfl, hFed⟩
      · rw [splitLayout_of_some _ (hSame _), ih hSplit, ← hText]
        simp
      · rw [splitLayout_of_some _ (hFed _), hRest, ← hText]
        simp

------------------------------------------------------------
-- Lexemes
------------------------------------------------------------

/- A string that is closed ends where it did before. -/
theorem scanString_followed
    {text seen rest : List Char}
    (more : List Char)
    (hClosed : (scanString text seen rest).1.closed = true) :
    scanString text seen (rest ++ more)
      = ((scanString text seen rest).1,
          (scanString text seen rest).2 ++ more) := by
  fun_induction scanString text seen rest with
  | case1 text seen rest => simp [scanString]
  | case2 text seen rest ih =>
      simp only [List.cons_append, scanString]
      exact ih hClosed
  | case3 text seen rest ih =>
      simp only [List.cons_append, scanString]
      exact ih hClosed
  | case4 text seen c rest hQuote hEscape hEscape' ih =>
      rw [List.cons_append, scanString]
      · exact ih hClosed
      · exact hQuote
      · intro tail hBackslash hTail
        cases rest with
        | nil => simp [scanString] at hClosed
        | cons d rest =>
            simp only [List.cons_append, List.cons.injEq]
              at hTail
            exact hEscape rest hBackslash (by rw [hTail.1])
      · intro tail hBackslash hTail
        cases rest with
        | nil => simp [scanString] at hClosed
        | cons d rest =>
            simp only [List.cons_append, List.cons.injEq]
              at hTail
            exact hEscape' rest hBackslash (by rw [hTail.1])
  | case5 => simp at hClosed

/- A word ends at a blank as it does at the end. -/
theorem splitWord_followed
    {s : Char}
    (seen text more : List Char)
    (hBlank : Text.isBlank s = true) :
    splitWord seen (text ++ s :: more)
      = ((splitWord seen text).1,
          (splitWord seen text).2 ++ s :: more) := by
  fun_induction splitWord seen text with
  | case1 seen =>
      simp [splitWord, isDelimiter, hBlank]
  | case2 seen c rest hEnd =>
      rw [List.cons_append, splitWord, ← List.cons_append,
        startsComment_followed _ _ hBlank, if_pos hEnd]
  | case3 seen c rest hEnd ih =>
      rw [List.cons_append, splitWord, ← List.cons_append,
        startsComment_followed _ _ hBlank, if_neg hEnd]
      exact ih

/- A lexeme that is closed ends where it did before. -/
theorem lexeme_followed
    {c s : Char}
    {tail : List Char}
    (more : List Char)
    (hBlank : Text.isBlank s = true)
    (hClosed : (lexeme c tail).1.closed = true) :
    lexeme c (tail ++ s :: more)
      = ((lexeme c tail).1,
          (lexeme c tail).2 ++ s :: more) := by
  unfold lexeme at *
  split
  · rfl
  · rename_i hPunctuation
    rw [hPunctuation] at hClosed
    split
    · rename_i hQuote
      simp only [if_pos hQuote] at hClosed
      exact scanString_followed _ hClosed
    · rw [splitWord_followed _ _ _ hBlank]

------------------------------------------------------------
-- Lexers
------------------------------------------------------------

namespace Lexer

/- The same lexer, with more text to come. -/
def followedBy
    (l : Lexer)
    (more : List Char) : Lexer :=
  { l with rest := l.rest ++ more }

/- The token that a closed lexeme makes. -/
theorem takeLexeme_followed
    {l : Lexer}
    {c s : Char}
    {tail : List Char}
    (start : Position)
    (more : List Char)
    (hBlank : Text.isBlank s = true)
    (hClosed : (lexeme c tail).1.closed = true) :
    (l.followedBy (s :: more)).takeLexeme start c
        (tail ++ s :: more)
      = ((l.takeLexeme start c tail).1,
          (l.takeLexeme start c tail).2.followedBy
            (s :: more)) := by
  simp only [takeLexeme, lexeme_followed more hBlank hClosed,
    hClosed, if_true, followedBy]

/- A lexeme that is not closed is a problem. -/
theorem closed_of_takeLexeme
    {l : Lexer}
    {start : Position}
    {c : Char}
    {tail : List Char}
    (hPending :
      (l.takeLexeme start c tail).2.pending = l.pending) :
    (lexeme c tail).1.closed = true := by
  cases hClosed : (lexeme c tail).1.closed with
  | true => rfl
  | false => simp [takeLexeme, hClosed, complain] at hPending

/-
  A token read without problems is read again if the text
  goes on after a blank.
-/
theorem next_followed
    {l m : Lexer}
    {t : Token}
    {s : Char}
    (more : List Char)
    (hBlank : Text.isBlank s = true)
    (hNext : l.next = (some t, m))
    (hPending : m.pending = l.pending) :
    (l.followedBy (s :: more)).next
      = (some t, m.followedBy (s :: more)) := by
  unfold next at hNext
  rcases hSplit : splitLayout [] l.rest with ⟨gap, _ | ⟨c, tail⟩⟩
  · simp [hSplit] at hNext
  · rcases hComment : startsComment (c :: tail) with _ | _
    · simp only [hSplit, hComment, Bool.false_eq_true, if_false,
        Prod.mk.injEq, Option.some.injEq] at hNext
      obtain ⟨rfl, rfl⟩ := hNext
      have hClosed := closed_of_takeLexeme hPending
      have hLayout :=
        splitLayout_followed more hBlank hComment hSplit
      have hComment' :=
        startsComment_followed (c :: tail) more hBlank
      rw [hComment, List.cons_append] at hComment'
      unfold next
      rw [show (l.followedBy (s :: more)).rest
        = l.rest ++ s :: more from rfl, hLayout]
      simp only [hComment', Bool.false_eq_true, if_false,
        takeLexeme_followed _ more hBlank hClosed]
      rfl
    · simp [hSplit, hComment] at hNext

/- The lexer that reads what comes after a line feed. -/
def resume
    (p : Position)
    (more : List Char) : Lexer :=
  { rest := more, position := p.step '\n', pending := [] }

/-
  Where no token was left and no problem, a line feed makes
  the rest be read by itself.
-/
theorem next_resumed
    {l m : Lexer}
    (more : List Char)
    (hNext : l.next = (none, m))
    (hPending : m.pending = [])
    (hBefore : l.pending = []) :
    (l.followedBy ('\n' :: more)).next
      = (resume (l.position.after l.rest) more).next := by
  unfold next at hNext
  rcases hSplit : splitLayout [] l.rest with ⟨gap, _ | ⟨c, tail⟩⟩
  · have hLayout :=
      splitLayout_resumed more (by rw [hSplit])
    unfold next
    rw [show (l.followedBy ('\n' :: more)).rest
      = l.rest ++ '\n' :: more from rfl, hLayout]
    simp only [List.reverse_nil, List.nil_append,
      Position.after_append, Position.after_cons]
    simp only [followedBy, resume, takeLexeme, complain, hBefore]
  · rcases hComment : startsComment (c :: tail) with _ | _
    · simp [hSplit, hComment] at hNext
    · simp only [hSplit, hComment, if_true, Prod.mk.injEq,
        true_and] at hNext
      rw [← hNext] at hPending
      simp [complain] at hPending

/- A token leaves the end of the text where it is. -/
theorem next_position
    {l m : Lexer}
    {t : Token}
    (hNext : l.next = (some t, m)) :
    m.position.after m.rest = l.position.after l.rest := by
  have hText := splitLayout_append [] l.rest
  unfold next at hNext
  rcases hSplit : splitLayout [] l.rest with ⟨gap, _ | ⟨c, tail⟩⟩
  · simp [hSplit] at hNext
  · rcases hComment : startsComment (c :: tail) with _ | _
    · simp only [hSplit, hComment, Bool.false_eq_true, if_false,
        Prod.mk.injEq] at hNext
      have hLexeme := lexeme_append c tail
      have hPosition :
          ∀ start,
            (l.takeLexeme start c tail).2.position
              = start.after (lexeme c tail).1.source := by
        intro start
        unfold takeLexeme
        simp only
        split <;> rfl
      rw [hSplit, List.reverse_nil, List.nil_append] at hText
      rw [← hNext.2, hPosition, takeLexeme_rest,
        ← Position.after_append, hLexeme,
        ← Position.after_append, hText]
    · simp [hSplit, hComment] at hNext

end Lexer
end BlockScript
