import BlockScript.Proofs.Continuation
import BlockScript.Proofs.Problems
import BlockScript.Word

/-
  This file shows which tokens a text is read as, wherever it
  stands with a blank after it. Such texts may be put in a
  row with blanks between them, and every string is read back
  from the word that is written for it.

  Key definitions include:
    * `Token.spelling`
    * `Lexer.past`
    * `Spells`
    * `Word.spelling`

  Key theorems include:
    * `Spells.join`
    * `spells_word`
    * `spells_quoted`
    * `Word.spells_written`
-/

namespace BlockScript

------------------------------------------------------------
-- Lexers Further On
------------------------------------------------------------

/- What a token says, without its place. -/
structure Spelling where
  kind : TokenKind
  text : String
deriving DecidableEq, Repr

def Token.spelling (t : Token) : Spelling :=
  { kind := t.kind, text := t.text }

/- The token that some characters at a position make. -/
def Spelling.token
    (x : Spelling)
    (p : Position)
    (source : List Char) : Token :=
  { kind := x.kind,
    text := x.text,
    span := p.spanTo (p.after source),
    location := p.location }

namespace Lexer

/- The lexer after a text that stands in front. -/
def past
    (l : Lexer)
    (text : List Char) : Lexer :=
  { l with
    rest := l.rest.drop text.length,
    position := l.position.after text }

@[simp]
theorem past_past
    (l : Lexer)
    (front back : List Char) :
    (l.past front).past back = l.past (front ++ back) := by
  simp [past, List.drop_drop]

theorem rest_past
    {l : Lexer}
    {text rest : List Char}
    (hRest : l.rest = text ++ rest) :
    (l.past text).rest = rest := by
  simp [past, hRest]

/- The tokens to come depend on the next step alone. -/
theorem tokens_of_next_eq
    {l m : Lexer}
    (hNext : l.next = m.next) :
    l.tokens = m.tokens := by
  rcases hStep : m.next with ⟨_ | t, n⟩
  · rw [tokens_of_none hStep, tokens_of_none (hNext.trans hStep)]
  · rw [tokens_of_some hStep, tokens_of_some (hNext.trans hStep)]

theorem problems_of_next_eq
    {l m : Lexer}
    (hNext : l.next = m.next) :
    l.problems = m.problems := by
  rcases hStep : m.next with ⟨_ | t, n⟩
  · rw [problems_of_none hStep,
      problems_of_none (hNext.trans hStep)]
  · rw [problems_of_some hStep,
      problems_of_some (hNext.trans hStep)]

/- A blank in front is passed over. -/
theorem next_blank
    {l : Lexer}
    {s : Char}
    {rest : List Char}
    (hBlank : Text.isBlank s = true)
    (hRest : l.rest = s :: rest) :
    l.next = (l.past [s]).next := by
  have hSplit :
      splitLayout [] l.rest
        = (s :: (splitLayout [] rest).1,
            (splitLayout [] rest).2) := by
    rw [hRest, splitLayout_of_some _ (layoutPiece?_blank _ hBlank)]
    exact splitLayout_seen [] [s] rest
  have hPast : (l.past [s]).rest = rest := rest_past hRest
  unfold next
  rw [hSplit, hPast]
  simp only [past, Position.after_cons, Position.after_nil]
  rfl

/- A closed lexeme in front is the next token. -/
theorem next_lexeme
    {l : Lexer}
    {c : Char}
    {tail rest : List Char}
    {kind : TokenKind}
    {text : List Char}
    (hBlank : Text.isBlank c = false)
    (hComment : startsComment (c :: (tail ++ rest)) = false)
    (hLexeme :
      lexeme c (tail ++ rest)
        = (⟨kind, text, c :: tail, true⟩, rest))
    (hRest : l.rest = c :: tail ++ rest) :
    l.next
      = (some
            (Spelling.token ⟨kind, String.ofList text⟩
              l.position (c :: tail)),
          l.past (c :: tail)) := by
  have hSplit :
      splitLayout [] l.rest = ([], c :: (tail ++ rest)) := by
    rw [hRest]
    exact splitLayout_of_none _
      (layoutPiece?_none hBlank hComment)
  have hPast := rest_past hRest
  unfold next
  rw [hSplit]
  simp only [Position.after_nil, hComment, Bool.false_eq_true,
    if_false, takeLexeme, hLexeme, if_true, past] at hPast ⊢
  rw [hPast]
  rfl

end Lexer

------------------------------------------------------------
-- Texts That Spell Tokens
------------------------------------------------------------

/- What may follow a word: nothing, or a blank. -/
def EndsWord (rest : List Char) : Prop :=
  ∀ s ∈ rest.head?, Text.isBlank s = true

theorem EndsWord.cases
    {rest : List Char}
    (hEnds : EndsWord rest) :
    rest = []
      ∨ ∃ s more, Text.isBlank s = true ∧ rest = s :: more := by
  cases rest with
  | nil => exact .inl rfl
  | cons s more => exact .inr ⟨s, more, hEnds s rfl, rfl⟩

theorem endsWord_nil : EndsWord [] := by
  intro c hc
  simp at hc

theorem endsWord_blank
    {s : Char}
    (rest : List Char)
    (hBlank : Text.isBlank s = true) :
    EndsWord (s :: rest) := by
  intro c hc
  obtain rfl : s = c := by simpa using hc
  exact hBlank

/-
  A text is read as some tokens wherever it stands, if a word
  may end after it. The tokens depend on its position only,
  and there is no problem with them.
-/
def Spells
    (text : List Char)
    (spelled : List Spelling) : Prop :=
  ∀ p, ∃ ts : List Token,
    ts.map Token.spelling = spelled
      ∧ ∀ (l : Lexer) rest,
          EndsWord rest →
          l.rest = text ++ rest →
          l.position = p →
            l.tokens = ts ++ (l.past text).tokens
              ∧ l.problems = (l.past text).problems

namespace Spells

variable {front back : List Char}
variable {xs ys : List Spelling}

theorem nil : Spells [] [] := by
  intro p
  refine ⟨[], rfl, ?_⟩
  intro l rest _ _ _
  exact ⟨rfl, rfl⟩

/- Texts in a row, with a blank between them. -/
theorem join
    {s : Char}
    (hBlank : Text.isBlank s = true)
    (hFront : Spells front xs)
    (hBack : Spells back ys) :
    Spells (front ++ s :: back) (xs ++ ys) := by
  intro p
  obtain ⟨ts, hTs, hFront⟩ := hFront p
  obtain ⟨us, hUs, hBack⟩ := hBack ((p.after front).step s)
  refine ⟨ts ++ us, by simp [hTs, hUs], ?_⟩
  intro l rest hEnds hRest hPosition
  rw [List.append_assoc, List.cons_append] at hRest
  obtain ⟨hTokens, hProblems⟩ :=
    hFront l _ (endsWord_blank _ hBlank) hRest hPosition
  have hPast := Lexer.rest_past hRest
  have hNext := Lexer.next_blank hBlank hPast
  rw [Lexer.past_past] at hNext
  have hPast' : (l.past (front ++ [s])).rest = back ++ rest := by
    apply Lexer.rest_past
    simp [hRest]
  have hPosition' :
      (l.past (front ++ [s])).position
        = (p.after front).step s := by
    simp [Lexer.past, hPosition]
  obtain ⟨hTokens', hProblems'⟩ :=
    hBack _ rest hEnds hPast' hPosition'
  rw [Lexer.past_past, List.append_assoc,
    List.singleton_append] at hTokens' hProblems'
  constructor
  · rw [hTokens, Lexer.tokens_of_next_eq hNext, hTokens',
      List.append_assoc]
  · rw [hProblems, Lexer.problems_of_next_eq hNext, hProblems']

/- One closed lexeme is one token. -/
theorem lexeme
    {c : Char}
    {tail text : List Char}
    {kind : TokenKind}
    (hBlank : Text.isBlank c = false)
    (hComment :
      ∀ rest, EndsWord rest →
        startsComment (c :: (tail ++ rest)) = false)
    (hLexeme :
      ∀ rest, EndsWord rest →
        BlockScript.lexeme c (tail ++ rest)
          = (⟨kind, text, c :: tail, true⟩, rest)) :
    Spells (c :: tail) [⟨kind, String.ofList text⟩] := by
  intro p
  refine ⟨[Spelling.token ⟨kind, String.ofList text⟩ p
    (c :: tail)], rfl, ?_⟩
  intro l rest hEnds hRest hPosition
  have hNext :=
    Lexer.next_lexeme hBlank (hComment rest hEnds)
      (hLexeme rest hEnds) hRest
  rw [hPosition] at hNext
  constructor
  · exact Lexer.tokens_of_some hNext
  · exact Lexer.problems_of_some hNext

end Spells

------------------------------------------------------------
-- Punctuation
------------------------------------------------------------

/- A brace or parenthesis is a token by itself. -/
theorem spells_punctuation
    {c : Char}
    {kind : TokenKind}
    (hKind : TokenKind.ofPunctuation? c = some kind) :
    Spells [c] [⟨kind, String.ofList [c]⟩] := by
  have hPlain : Text.isBlank c = false ∧ c ≠ '/' := by
    unfold TokenKind.ofPunctuation? at hKind
    split at hKind <;> first | decide | simp at hKind
  apply Spells.lexeme hPlain.1
  · intro rest _
    simp [startsComment, hPlain.2]
  · intro rest _
    simp [lexeme, hKind]

------------------------------------------------------------
-- Words
------------------------------------------------------------

/- The end of a word starts no comment with it. -/
theorem startsComment_ended
    {rest : List Char}
    (text : List Char)
    (hEnds : EndsWord rest) :
    startsComment (text ++ rest) = startsComment text := by
  rcases hEnds.cases with rfl | ⟨s, more, hBlank, rfl⟩
  · rw [List.append_nil]
  · exact startsComment_followed text more hBlank

/- A word goes up to its end. -/
theorem splitWord_ended
    {word rest : List Char}
    (seen : List Char)
    (hPlain : ∀ c ∈ word, isDelimiter c = false)
    (hComment : Word.holdsComment word = false)
    (hEnds : EndsWord rest) :
    splitWord seen (word ++ rest)
      = (seen.reverse ++ word, rest) := by
  induction word generalizing seen with
  | nil =>
      rcases hEnds.cases with rfl | ⟨s, more, hBlank, rfl⟩
      · simp [splitWord]
      · simp [splitWord, isDelimiter, hBlank]
  | cons c word ih =>
      simp only [Word.holdsComment, Bool.or_eq_false_iff]
        at hComment
      have hFirst := hPlain c List.mem_cons_self
      have hStarts := startsComment_ended (c :: word) hEnds
      rw [hComment.1, List.cons_append] at hStarts
      rw [List.cons_append, splitWord, hFirst, hStarts,
        Bool.or_self, if_neg Bool.false_ne_true,
        ih (c :: seen) _ hComment.2]
      · simp
      · intro d hd
        exact hPlain d (List.mem_cons_of_mem c hd)

/- A word is one token. -/
theorem spells_word
    {word : List Char}
    (hSome : word ≠ [])
    (hPlain : ∀ c ∈ word, isDelimiter c = false)
    (hComment : Word.holdsComment word = false) :
    Spells word [⟨wordKind word, String.ofList word⟩] := by
  cases word with
  | nil => exact absurd rfl hSome
  | cons c tail =>
      have hFirst := hPlain c List.mem_cons_self
      simp only [isDelimiter, Bool.or_eq_false_iff,
        Option.isSome_eq_false_iff, Option.isNone_iff_eq_none,
        beq_eq_false_iff_ne] at hFirst
      obtain ⟨⟨hBlank, hPunctuation⟩, hQuote⟩ := hFirst
      have hParts := hComment
      simp only [Word.holdsComment, Bool.or_eq_false_iff]
        at hParts
      apply Spells.lexeme hBlank
      · intro rest hEnds
        rw [← List.cons_append, startsComment_ended _ hEnds]
        exact hParts.1
      · intro rest hEnds
        have hSplit :=
          splitWord_ended [c]
            (fun d hd => hPlain d (List.mem_cons_of_mem c hd))
            hParts.2 hEnds
        simp only [lexeme, hPunctuation, hQuote, if_false, hSplit]
        rfl

------------------------------------------------------------
-- Quoted Text
------------------------------------------------------------

/- The content of a string is read back from its escapes. -/
theorem scanString_escaped
    (text seen content rest : List Char) :
    scanString text seen
        (content.flatMap Word.escape ++ '"' :: rest)
      = (⟨.str, text.reverse ++ content,
            seen.reverse
              ++ (content.flatMap Word.escape ++ ['"']),
            true⟩,
          rest) := by
  induction content generalizing text seen with
  | nil => simp [scanString]
  | cons c content ih =>
      rw [List.flatMap_cons, List.append_assoc]
      by_cases hQuote : c = '"'
      · subst hQuote
        simp [Word.escape, scanString, ih]
      · by_cases hBackslash : c = '\\'
        · subst hBackslash
          simp [Word.escape, scanString, ih]
        · have hEscape : Word.escape c = [c] := by
            simp [Word.escape, hQuote, hBackslash]
          rw [hEscape, List.singleton_append, scanString]
          · simp [ih]
          · exact hQuote
          · intro tail h
            exact absurd h hBackslash
          · intro tail h
            exact absurd h hBackslash

/- A text in quotes is one token that says the text. -/
theorem spells_quoted
    (text : List Char) :
    Spells (Word.quoted text) [⟨.str, String.ofList text⟩] := by
  apply Spells.lexeme
  · decide
  · intro rest _
    rfl
  · intro rest _
    have hScan := scanString_escaped [] ['"'] text rest
    rw [List.append_assoc, List.singleton_append]
    exact hScan

------------------------------------------------------------
-- Written Words
------------------------------------------------------------

namespace Word

/- The token that is written for a text. -/
def spelling (text : List Char) : Spelling :=
  { kind := if isBare text then wordKind text else .str,
    text := String.ofList text }

/- A text is read back from the word written for it. -/
theorem spells_written
    (text : List Char) :
    Spells (written text) [spelling text] := by
  unfold written spelling
  split
  · rename_i hBare
    simp only [isBare, Bool.and_eq_true, Bool.not_eq_true',
      List.isEmpty_eq_false_iff, List.all_eq_true] at hBare
    obtain ⟨⟨hSome, hComment⟩, hPlain⟩ := hBare
    apply spells_word hSome _ hComment
    intro c hc
    exact (hPlain c hc).1
  · exact spells_quoted text

end Word
end BlockScript
