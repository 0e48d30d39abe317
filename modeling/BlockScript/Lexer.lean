import BlockScript.Diagnostic
import BlockScript.Number.Binary
import BlockScript.Text.Blank

/-
  This file defines the lexer: the split of a text into
  layout and lexemes, and the state that hands out one token
  at a time.

  Layout is white space, line comments and closed block
  comments. A lexeme is a brace or parenthesis, a quoted
  string, or a word, which runs up to the next blank,
  punctuation, quote or comment.

  Key definitions include:
    * `layoutPiece?`
    * `splitLayout`
    * `Lexeme`
    * `lexeme`
    * `Lexer`
    * `Lexer.next`
    * `tokenize`
-/

namespace BlockScript

------------------------------------------------------------
-- Layout
------------------------------------------------------------

/-
  Split a text after the first end of a block comment. The
  characters read so far are in `seen`, last first.
-/
def splitComment
    (seen : List Char) :
    List Char → Option (List Char × List Char)
  | '*' :: '/' :: rest => some (('/' :: '*' :: seen).reverse, rest)
  | c :: rest => splitComment (c :: seen) rest
  | [] => none

/- Split a text after its first line feed. -/
def splitLine (text : List Char) : List Char × List Char :=
  let line := text.takeWhile (· != '\n')
  match text.dropWhile (· != '\n') with
  | [] => (line, [])
  | c :: rest => (line ++ [c], rest)

/-
  One piece of layout at the front of a text: a blank, a line
  comment with its line feed, or a closed block comment.
-/
def layoutPiece? : List Char → Option (List Char × List Char)
  | [] => none
  | c :: rest =>
      if Text.isBlank c then
        some ([c], rest)
      else
        match c, rest with
        | '/', '/' :: rest =>
            let (line, rest) := splitLine rest
            some ('/' :: '/' :: line, rest)
        | '/', '*' :: rest =>
            splitComment ['*', '/'] rest
        | _, _ => none

/- A closed comment is split off without loss. -/
theorem splitComment_append
    {seen text comment rest : List Char}
    (h : splitComment seen text = some (comment, rest)) :
    seen.reverse ++ text = comment ++ rest := by
  fun_induction splitComment seen text with
  | case1 seen rest' =>
      simp only [Option.some.injEq, Prod.mk.injEq] at h
      obtain ⟨rfl, rfl⟩ := h
      simp
  | case2 seen c rest' _ ih =>
      rw [← ih h]
      simp
  | case3 => simp at h

/- A line is split off without loss. -/
theorem splitLine_append
    (text : List Char) :
    (splitLine text).1 ++ (splitLine text).2 = text := by
  have h :=
    List.takeWhile_append_dropWhile
      (p := (· != '\n')) (l := text)
  unfold splitLine
  split <;> rename_i hRest <;> rw [hRest] at h <;> simpa using h

/- A piece of layout is split off without loss. -/
theorem layoutPiece?_append
    {text piece rest : List Char}
    (h : layoutPiece? text = some (piece, rest)) :
    piece ++ rest = text := by
  unfold layoutPiece? at h
  split at h
  · simp at h
  · split at h
    · simp only [Option.some.injEq, Prod.mk.injEq] at h
      obtain ⟨rfl, rfl⟩ := h
      rfl
    · split at h
      · rename_i rest' _
        simp only [Option.some.injEq, Prod.mk.injEq] at h
        obtain ⟨rfl, rfl⟩ := h
        simp [splitLine_append]
      · rw [← splitComment_append h]
        rfl
      · simp at h

/- A closed comment has characters of its own. -/
theorem splitComment_ne_nil
    {seen text comment rest : List Char}
    (h : splitComment seen text = some (comment, rest)) :
    comment ≠ [] := by
  fun_induction splitComment seen text with
  | case1 seen rest' =>
      simp only [Option.some.injEq, Prod.mk.injEq] at h
      obtain ⟨rfl, rfl⟩ := h
      simp
  | case2 seen c rest' _ ih => exact ih h
  | case3 => simp at h

/- A piece of layout has characters. -/
theorem layoutPiece?_ne_nil
    {text piece rest : List Char}
    (h : layoutPiece? text = some (piece, rest)) :
    piece ≠ [] := by
  unfold layoutPiece? at h
  split at h
  · simp at h
  · split at h
    · simp only [Option.some.injEq, Prod.mk.injEq] at h
      obtain ⟨rfl, rfl⟩ := h
      simp
    · split at h
      · simp only [Option.some.injEq, Prod.mk.injEq] at h
        obtain ⟨rfl, rfl⟩ := h
        simp
      · exact splitComment_ne_nil h
      · simp at h

/- What follows a piece of layout is shorter. -/
theorem layoutPiece?_length
    {text piece rest : List Char}
    (h : layoutPiece? text = some (piece, rest)) :
    rest.length < text.length := by
  rw [← layoutPiece?_append h, List.length_append]
  have hPiece :=
    List.length_pos_iff.mpr (layoutPiece?_ne_nil h)
  omega

/-
  Split a text after all layout at its front. The layout read
  so far is in `seen`, last character first.
-/
def splitLayout
    (seen text : List Char) : List Char × List Char :=
  match _ : layoutPiece? text with
  | none => (seen.reverse, text)
  | some (piece, rest) =>
      splitLayout (piece.reverse ++ seen) rest
termination_by text.length
decreasing_by
  rename_i h
  exact layoutPiece?_length h

/- Layout is split off without loss. -/
theorem splitLayout_append
    (seen text : List Char) :
    (splitLayout seen text).1 ++ (splitLayout seen text).2
      = seen.reverse ++ text := by
  fun_induction splitLayout seen text with
  | case1 => rfl
  | case2 seen text piece rest h ih =>
      rw [ih, ← layoutPiece?_append h]
      simp

/- What follows layout is not longer. -/
theorem splitLayout_length
    (text : List Char) :
    (splitLayout [] text).2.length ≤ text.length := by
  have h := congrArg List.length (splitLayout_append [] text)
  simp only [List.length_append, List.reverse_nil,
    List.nil_append] at h
  omega

------------------------------------------------------------
-- Lexemes
------------------------------------------------------------

/-
  A lexeme: what it says, how it is written, and whether it
  is complete. Only a string that input ends is not.
-/
structure Lexeme where
  kind : TokenKind
  text : List Char
  source : List Char
  closed : Bool

/-
  Read the content of a string up to its closing quote. A
  backslash before a quote or a backslash stands for nothing
  itself. The text and the characters read so far are in
  `text` and `seen`, last first.
-/
def scanString
    (text seen : List Char) :
    List Char → Lexeme × List Char
  | '"' :: rest =>
      (⟨.str, text.reverse, ('"' :: seen).reverse, true⟩, rest)
  | '\\' :: '"' :: rest =>
      scanString ('"' :: text) ('"' :: '\\' :: seen) rest
  | '\\' :: '\\' :: rest =>
      scanString ('\\' :: text) ('\\' :: '\\' :: seen) rest
  | c :: rest => scanString (c :: text) (c :: seen) rest
  | [] => (⟨.str, text.reverse, seen.reverse, false⟩, [])

/- Characters that no word contains. -/
def isDelimiter (c : Char) : Bool :=
  Text.isBlank c
    || (TokenKind.ofPunctuation? c).isSome
    || c == '"'

/- Whether a comment starts at the front of a text. -/
def startsComment : List Char → Bool
  | '/' :: '/' :: _ => true
  | '/' :: '*' :: _ => true
  | _ => false

/-
  Split a text after the word at its front. The characters
  read so far are in `seen`, last first.
-/
def splitWord
    (seen : List Char) :
    List Char → List Char × List Char
  | [] => (seen.reverse, [])
  | c :: rest =>
      if isDelimiter c || startsComment (c :: rest) then
        (seen.reverse, c :: rest)
      else
        splitWord (c :: seen) rest

/-
  Whether a word goes on like a number after its sign. This
  leaves out the words for numbers that are not finite.
-/
def looksNumeric (word : List Char) : Bool :=
  match (Number.splitSign word).2 with
  | [] => false
  | c :: _ => c.isDigit || c == '.'

/- A word is a number if it looks like one and names one. -/
def wordKind (word : List Char) : TokenKind :=
  if looksNumeric word
      && (Number.Binary.parse? word : Option Number.Double).isSome
  then
    .number
  else
    .ident

/-
  The lexeme that begins with `c`, and what follows it, where
  `c` begins no layout.
-/
def lexeme
    (c : Char)
    (rest : List Char) : Lexeme × List Char :=
  match TokenKind.ofPunctuation? c with
  | some kind => (⟨kind, [c], [c], true⟩, rest)
  | none =>
      if c = '"' then
        scanString [] [c] rest
      else
        let (word, rest) := splitWord [c] rest
        (⟨wordKind word, word, word, true⟩, rest)

/- A string is read without loss. -/
theorem scanString_append
    (text seen rest : List Char) :
    (scanString text seen rest).1.source
        ++ (scanString text seen rest).2
      = seen.reverse ++ rest := by
  fun_induction scanString text seen rest <;> simp_all

/- A word is split off without loss. -/
theorem splitWord_append
    (seen text : List Char) :
    (splitWord seen text).1 ++ (splitWord seen text).2
      = seen.reverse ++ text := by
  fun_induction splitWord seen text <;> simp_all

/- A lexeme is read without loss. -/
theorem lexeme_append
    (c : Char)
    (rest : List Char) :
    (lexeme c rest).1.source ++ (lexeme c rest).2
      = c :: rest := by
  unfold lexeme
  split
  · rfl
  · split
    · exact scanString_append [] [c] rest
    · exact splitWord_append [c] rest

/- What follows a string is not longer than what began it. -/
theorem scanString_length
    (text seen rest : List Char) :
    (scanString text seen rest).2.length ≤ rest.length := by
  fun_induction scanString text seen rest <;>
    simp_all <;> omega

/- What follows a word is not longer than what began it. -/
theorem splitWord_length
    (seen text : List Char) :
    (splitWord seen text).2.length ≤ text.length := by
  fun_induction splitWord seen text <;> simp_all
  omega

/- A lexeme takes at least its first character. -/
theorem lexeme_length
    (c : Char)
    (rest : List Char) :
    (lexeme c rest).2.length ≤ rest.length := by
  unfold lexeme
  split
  · exact Nat.le_refl _
  · split
    · exact scanString_length [] [c] rest
    · exact splitWord_length [c] rest

------------------------------------------------------------
-- Lexer
------------------------------------------------------------

/-
  The text still to be read, where it begins, and the
  diagnostics that have not been taken yet.
-/
structure Lexer where
  rest : List Char
  position : Position
  pending : List Diagnostic
deriving DecidableEq, Repr

namespace Lexer

/- The lexer at the start of a script. -/
def ofSource (source : String) : Lexer :=
  { rest := source.toList,
    position := Position.first,
    pending := [] }

/- Keep a problem with the text between two positions. -/
def complain
    (l : Lexer)
    (problem : Problem)
    (start stop : Position) : Lexer :=
  let d :=
    (Diagnostic.ofProblem problem).place
      (start.spanTo stop) start.location
  { l with pending := l.pending ++ [d] }

/-
  Read the lexeme that begins at `start` with `c`.
-/
def takeLexeme
    (l : Lexer)
    (start : Position)
    (c : Char)
    (rest : List Char) : Token × Lexer :=
  let (x, rest) := lexeme c rest
  let stop := start.after x.source
  let token : Token :=
    { kind := x.kind,
      text := String.ofList x.text,
      span := start.spanTo stop,
      location := start.location }
  let l := { l with rest, position := stop }
  if x.closed then
    (token, l)
  else
    (token, l.complain .openString start stop)

/-
  The next token. Layout before it is passed over; a block
  comment that is never closed ends the script.
-/
def next (l : Lexer) : Option Token × Lexer :=
  let (gap, rest) := splitLayout [] l.rest
  let start := l.position.after gap
  match rest with
  | [] => (none, { l with rest := [], position := start })
  | c :: tail =>
      if startsComment (c :: tail) then
        let stop := start.after (c :: tail)
        (none,
          complain { l with rest := [], position := stop }
            .openComment start stop)
      else
        let (token, l) := l.takeLexeme start c tail
        (some token, l)

/- Take the diagnostics that have not been taken yet. -/
def drain (l : Lexer) : List Diagnostic × Lexer :=
  (l.pending, { l with pending := [] })

@[simp]
theorem complain_rest
    (l : Lexer)
    (problem : Problem)
    (start stop : Position) :
    (l.complain problem start stop).rest = l.rest :=
  rfl

@[simp]
theorem takeLexeme_rest
    (l : Lexer)
    (start : Position)
    (c : Char)
    (rest : List Char) :
    (l.takeLexeme start c rest).2.rest = (lexeme c rest).2 := by
  unfold takeLexeme
  simp only
  split <;> rfl

/- A token leaves less text to be read. -/
theorem next_length
    {l l' : Lexer}
    {t : Token}
    (h : l.next = (some t, l')) :
    l'.rest.length < l.rest.length := by
  have hLayout := splitLayout_length l.rest
  unfold next at h
  simp only at h
  split at h
  · simp at h
  · rename_i c tail hRest
    split at h
    · simp at h
    · simp only [Prod.mk.injEq] at h
      obtain ⟨_, rfl⟩ := h
      have hLexeme := lexeme_length c tail
      rw [hRest] at hLayout
      simp only [takeLexeme_rest, List.length_cons] at *
      omega

/-
  All tokens still to come, after those in `seen`, last
  first.
-/
def collect
    (seen : List Token)
    (l : Lexer) : List Token × Lexer :=
  match _ : l.next with
  | (none, l') => (seen.reverse, l')
  | (some t, l') => collect (t :: seen) l'
termination_by l.rest.length
decreasing_by
  rename_i h
  exact next_length h

end Lexer

------------------------------------------------------------
-- Whole Scripts
------------------------------------------------------------

/- The tokens of a script and the problems with them. -/
def tokenize
    (source : String) : List Token × List Diagnostic :=
  let (tokens, l) := (Lexer.ofSource source).collect []
  (tokens, l.pending)

end BlockScript
