import BlockScript.Proofs.RoundTrip
import BlockScript.Proofs.Tiling
import BlockScript.Script.Printer

/-
  This file shows which tokens a written script is read as:
  those of the blocks that were read, while those that could
  not be read are comments.

  Key definitions include:
    * `Word.isIdent`
    * `LexesAsIdent`
    * `SpellsFreely`
    * `Block.spelling`
    * `Block.IsWritable`

  Key theorems include:
    * `lexesAsIdent_iff`
    * `SpellsFreely.append`
    * `Block.spells_written`
    * `Script.tokenize_render`
-/

namespace BlockScript

------------------------------------------------------------
-- Identifiers
------------------------------------------------------------

/- Whether a text is one word that is no number. -/
def Word.isIdent (word : List Char) : Bool :=
  !word.isEmpty
    && (word.all fun c => !isDelimiter c)
    && !holdsComment word
    && wordKind word == .ident

theorem Word.isIdent_iff
    {word : List Char} :
    isIdent word = true
      ↔ word ≠ []
          ∧ (∀ c ∈ word, isDelimiter c = false)
          ∧ holdsComment word = false
          ∧ wordKind word = .ident := by
  simp [isIdent, and_assoc]

/- Such a word is read as one token. -/
theorem Word.spells_ident
    {word : List Char}
    (hIdent : isIdent word = true) :
    Spells word [⟨.ident, String.ofList word⟩] := by
  rcases isIdent_iff.mp hIdent with
    ⟨hSome, hPlain, hComment, hKind⟩
  have hSpells := spells_word hSome hPlain hComment
  rwa [hKind] at hSpells

/- No line ends in such a word. -/
theorem Word.feed_not_mem
    {word : List Char}
    (hIdent : isIdent word = true) :
    '\n' ∉ word := by
  intro hFeed
  have hPlain := (isIdent_iff.mp hIdent).2.1 _ hFeed
  have hBlank : Text.isBlank '\n' = true := by decide
  simp [isDelimiter, hBlank] at hPlain

/- A word of a script that is no number is such a word. -/
theorem isIdent_of_token
    {source : String}
    {t : Token}
    (ht : t ∈ (tokenize source).1)
    (hKind : t.kind = .ident) :
    Word.isIdent t.text.toList = true := by
  rcases (tiling_tokenize source).stands t ht with
    ⟨before, slice, after, -, hStands⟩
  have hText := hStands.text (by simp [hKind])
  rcases hStands.word (.inl hKind) with
    ⟨hSome, hPlain, hComment, hWord, -⟩
  rw [hText]
  exact Word.isIdent_iff.mpr
    ⟨hSome, hPlain, hComment, hWord.trans hKind⟩

/- Strings are written with quotes. -/
theorem quote_of_token
    {source : String}
    {t : Token}
    (ht : t ∈ (tokenize source).1)
    (hKind : t.kind = .str) :
    '"' ∈ source.toList := by
  rcases (tiling_tokenize source).stands t ht with
    ⟨before, slice, after, hText, hStands⟩
  rcases hStands.string hKind with ⟨closed, body, -, hSlice, -⟩
  simp [hText, hSlice]

/- A text that is lexed as one identifier, itself. -/
def LexesAsIdent (text : String) : Prop :=
  ∃ t,
    (tokenize text).1 = [t] ∧ t.kind = .ident ∧ t.text = text

------------------------------------------------------------
-- Texts That Anything May Follow
------------------------------------------------------------

/- A piece of layout in front is passed over. -/
theorem Lexer.next_piece
    {l : Lexer}
    {piece rest : List Char}
    (hPiece : Piece piece)
    (hRest : l.rest = piece ++ rest) :
    l.next = (l.past piece).next := by
  have hSplit :
      splitLayout [] l.rest
        = (piece ++ (splitLayout [] rest).1,
            (splitLayout [] rest).2) := by
    have hSeen := splitLayout_seen [] piece.reverse rest
    rw [List.nil_append, List.reverse_reverse] at hSeen
    rw [hRest,
      splitLayout_of_some _ (layoutPiece?_of_piece rest hPiece),
      List.append_nil, hSeen]
  have hPast : (l.past piece).rest = rest := rest_past hRest
  unfold next
  rw [hSplit, hPast]
  simp only [past, Position.after_append]
  rfl

/-
  A text is read as some tokens wherever it stands, whatever
  follows it, and there is no problem with them.
-/
def SpellsFreely
    (text : List Char)
    (spelled : List Spelling) : Prop :=
  ∀ p, ∃ ts : List Token,
    ts.map Token.spelling = spelled
      ∧ ∀ (l : Lexer) rest,
          l.rest = text ++ rest →
          l.position = p →
            l.tokens = ts ++ (l.past text).tokens
              ∧ l.problems = (l.past text).problems

namespace SpellsFreely

variable {front back : List Char}
variable {xs ys : List Spelling}

theorem nil : SpellsFreely [] [] := by
  intro p
  refine ⟨[], rfl, ?_⟩
  intro l rest _ _
  exact ⟨rfl, rfl⟩

/- Layout is read as no tokens. -/
theorem piece
    {piece : List Char}
    (hPiece : Piece piece) :
    SpellsFreely piece [] := by
  intro p
  refine ⟨[], rfl, ?_⟩
  intro l rest hRest _
  have hNext := Lexer.next_piece hPiece hRest
  exact ⟨Lexer.tokens_of_next_eq hNext,
    Lexer.problems_of_next_eq hNext⟩

theorem append
    (hFront : SpellsFreely front xs)
    (hBack : SpellsFreely back ys) :
    SpellsFreely (front ++ back) (xs ++ ys) := by
  intro p
  rcases hFront p with ⟨ts, hTs, hFront⟩
  rcases hBack (p.after front) with ⟨us, hUs, hBack⟩
  refine ⟨ts ++ us, by simp [hTs, hUs], ?_⟩
  intro l rest hRest hPosition
  rw [List.append_assoc] at hRest
  rcases hFront l _ hRest hPosition with ⟨hTokens, hProblems⟩
  have hPosition' : (l.past front).position = p.after front := by
    simp [Lexer.past, hPosition]
  rcases hBack _ rest (Lexer.rest_past hRest) hPosition' with
    ⟨hTokens', hProblems'⟩
  rw [Lexer.past_past] at hTokens' hProblems'
  constructor
  · rw [hTokens, hTokens', List.append_assoc]
  · rw [hProblems, hProblems']

/- With a blank at its end, anything may follow a text. -/
theorem of_spells
    {text : List Char}
    {s : Char}
    (hBlank : Text.isBlank s = true)
    (hSpells : Spells text xs) :
    SpellsFreely (text ++ [s]) xs := by
  intro p
  rcases hSpells p with ⟨ts, hTs, hText⟩
  refine ⟨ts, hTs, ?_⟩
  intro l rest hRest hPosition
  rw [List.append_assoc] at hRest
  rcases hText l _ (endsWord_blank _ hBlank) hRest hPosition with
    ⟨hTokens, hProblems⟩
  have hNext :=
    Lexer.next_piece (.blank hBlank) (Lexer.rest_past hRest)
  rw [Lexer.past_past] at hNext
  constructor
  · rw [hTokens, Lexer.tokens_of_next_eq hNext]
  · rw [hProblems, Lexer.problems_of_next_eq hNext]

/- Texts in a row are read one after the other. -/
theorem flatMap
    {α : Type}
    {items : List α}
    {text : α → List Char}
    {spelled : α → List Spelling}
    (hItems :
      ∀ a ∈ items, SpellsFreely (text a) (spelled a)) :
    SpellsFreely (items.flatMap text)
      (items.flatMap spelled) := by
  induction items with
  | nil => exact nil
  | cons a items ih =>
      rw [List.flatMap_cons, List.flatMap_cons]
      apply append (hItems a List.mem_cons_self)
      apply ih
      intro b hb
      exact hItems b (List.mem_cons_of_mem a hb)

/- So may a blank or nothing. -/
theorem spells
    {text : List Char}
    (hSpells : SpellsFreely text xs) :
    Spells text xs := by
  intro p
  rcases hSpells p with ⟨ts, hTs, hText⟩
  refine ⟨ts, hTs, ?_⟩
  intro l rest _ hRest hPosition
  exact hText l rest hRest hPosition

end SpellsFreely

/- A whole text is read as these tokens and no others. -/
theorem Spells.tokenize
    {text : List Char}
    {xs : List Spelling}
    (hSpells : Spells text xs) :
    (BlockScript.tokenize (String.ofList text)).1.map
          Token.spelling = xs
      ∧ (BlockScript.tokenize (String.ofList text)).2 = [] := by
  rcases hSpells Position.first with ⟨ts, hTs, hText⟩
  have hRest :
      (Lexer.ofSource (String.ofList text)).rest
        = text ++ [] := by
    simp [Lexer.ofSource]
  rcases hText _ _ endsWord_nil hRest rfl with
    ⟨hTokens, hProblems⟩
  have hEnd := Lexer.next_of_rest_nil (Lexer.rest_past hRest)
  rw [Lexer.tokens_of_none hEnd, List.append_nil] at hTokens
  rw [Lexer.problems_of_none hEnd] at hProblems
  rw [tokenize_eq, hTokens]
  exact ⟨hTs, hProblems⟩

/- One identifier is all there is in such a text. -/
theorem lexesAsIdent_iff
    {text : String} :
    LexesAsIdent text ↔ Word.isIdent text.toList = true := by
  constructor
  · rintro ⟨t, hTokens, hKind, hText⟩
    have hMember : t ∈ (tokenize text).1 := by
      rw [hTokens]
      exact List.mem_singleton_self t
    rw [← hText]
    exact isIdent_of_token hMember hKind
  · intro hIdent
    have hSpelled := (Word.spells_ident hIdent).tokenize.1
    rw [String.ofList_toList] at hSpelled
    rcases List.map_eq_singleton_iff.mp hSpelled with
      ⟨t, hTokens, hToken⟩
    exact ⟨t, hTokens, congrArg Spelling.kind hToken,
      congrArg Spelling.text hToken⟩

instance (text : String) : Decidable (LexesAsIdent text) :=
  decidable_of_iff _ lexesAsIdent_iff.symm

------------------------------------------------------------
-- Blocks
------------------------------------------------------------

/- The tokens that are written for a field. -/
def Field.spelling (f : Field) : List Spelling :=
  ⟨.ident, f.key⟩ :: f.value.spelling

theorem Field.spells_written
    {f : Field}
    (hKey : Word.isIdent f.key.toList = true) :
    SpellsFreely f.written f.spelling := by
  have hIndent : SpellsFreely ['\t'] [] :=
    .piece (.blank (by decide))
  have hName : SpellsFreely (f.key.toList ++ [' ']) _ :=
    .of_spells (by decide) (Word.spells_ident hKey)
  have hValue : SpellsFreely (f.value.written ++ ['\n']) _ :=
    .of_spells (by decide) f.value.spells_written
  have hLine := (hIndent.append hName).append hValue
  simpa [written, spelling] using hLine

namespace Block

/- The tokens that are written for keyword and name. -/
def titleSpelling (b : Block) : List Spelling :=
  ⟨.ident, b.keyword⟩
    :: b.name.toList.map fun name => ⟨.ident, name⟩

/-
  The tokens that are written for a block, none if it could
  not be read.
-/
def spelling (b : Block) : List Spelling :=
  match b.outcome with
  | .parsed fields =>
      b.titleSpelling
        ++ ⟨.lBrace, "\x7b"⟩
          :: (fields.flatMap Field.spelling
            ++ [⟨.rBrace, "\x7d"⟩])
  | .failed => []

/-
  A block that is read back from its text, or stays in one
  comment: words that are written bare have to be read as
  such, and a comment may not end before its line does.
-/
structure IsWritable (b : Block) : Prop where
  keyword : Word.isIdent b.keyword.toList = true
  name :
    b.isFailed = false →
      ∀ name ∈ b.name, Word.isIdent name.toList = true
  fields :
    ∀ fields,
      b.outcome = .parsed fields →
        ∀ f ∈ fields, Word.isIdent f.key.toList = true
  line :
    b.isFailed = true → ∀ name ∈ b.name, '\n' ∉ name.toList

theorem spells_title
    {b : Block}
    (hKeyword : Word.isIdent b.keyword.toList = true)
    (hName : ∀ name ∈ b.name, Word.isIdent name.toList = true) :
    Spells b.title.toList b.titleSpelling := by
  have hWord := Word.spells_ident hKeyword
  rw [String.ofList_toList] at hWord
  unfold title titleSpelling
  rcases hSome : b.name with _ | name
  · exact hWord
  · have hSecond := Word.spells_ident (hName name hSome)
    rw [String.ofList_toList] at hSecond
    have hBoth := hWord.join (s := ' ') (by decide) hSecond
    simpa using hBoth

/- No line ends in the title of a block that failed. -/
theorem title_of_failed
    {b : Block}
    (hWritable : b.IsWritable)
    (hFailed : b.isFailed = true) :
    '\n' ∉ b.title.toList := by
  have hKeyword := Word.feed_not_mem hWritable.keyword
  unfold title
  rcases hName : b.name with _ | name
  · exact hKeyword
  · have hLine := hWritable.line hFailed name hName
    simp [hKeyword, hLine]

/- A block is written as the tokens that are to say it. -/
theorem spells_written
    {b : Block}
    (hWritable : b.IsWritable) :
    SpellsFreely b.written b.spelling := by
  unfold written spelling
  rcases hOutcome : b.outcome with fields | _
  · have hParsed : b.isFailed = false := by
      simp [isFailed, hOutcome]
    have hTitle :=
      SpellsFreely.of_spells (s := ' ') (by decide)
        (spells_title hWritable.keyword (hWritable.name hParsed))
    have hLeft :
        SpellsFreely (['{'] ++ ['\n']) [⟨.lBrace, "\x7b"⟩] :=
      .of_spells (by decide) (spells_punctuation rfl)
    have hRight :
        SpellsFreely (['}'] ++ ['\n']) [⟨.rBrace, "\x7d"⟩] :=
      .of_spells (by decide) (spells_punctuation rfl)
    have hFields :
        SpellsFreely (fields.flatMap Field.written)
          (fields.flatMap Field.spelling) := by
      apply SpellsFreely.flatMap
      intro f hf
      exact Field.spells_written
        (hWritable.fields fields hOutcome f hf)
    have hBlock :=
      ((hTitle.append hLeft).append hFields).append hRight
    simpa using hBlock
  · have hFailed : b.isFailed = true := by
      simp [isFailed, hOutcome]
    have hLine : '\n' ∉ " failed: ".toList ++ b.title.toList := by
      rw [List.mem_append, not_or]
      exact ⟨by decide, title_of_failed hWritable hFailed⟩
    exact .piece (.line hLine)

end Block

/-
  A written script is read as the tokens of its blocks, and
  there is no problem with its text.
-/
theorem Script.tokenize_render
    {s : Script}
    (hWritable : ∀ b ∈ s.blocks, b.IsWritable) :
    (tokenize s.render).1.map Token.spelling
        = s.blocks.flatMap Block.spelling
      ∧ (tokenize s.render).2 = [] := by
  have hSpells :
      SpellsFreely (s.blocks.flatMap Block.written)
        (s.blocks.flatMap Block.spelling) := by
    apply SpellsFreely.flatMap
    intro b hb
    exact Block.spells_written (hWritable b hb)
  exact hSpells.spells.tokenize

end BlockScript
