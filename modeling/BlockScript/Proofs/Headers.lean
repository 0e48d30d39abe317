import BlockScript.Proofs.Rendering
import BlockScript.Proofs.Slices

/-
  This file says what is read back from the text written for
  one block of a script. Its name is written as it is, so it
  comes back with the heading if and only if it is one word.
  A block that failed is a comment up to the first line feed
  in its name, and what follows that is read as script again.

  Key definitions include:
    * `Block.heading`
    * `Block.beyondLine`
    * `Block.IsHeadedBy`

  Key theorems include:
    * `Tiling.not_str_of_heading`
    * `Block.isHeadedBy_iff`
    * `Block.spelling_written_failed`
    * `Script.written_of_parse`
-/

namespace BlockScript

------------------------------------------------------------
-- Written Blocks
------------------------------------------------------------

namespace Block

/- The line that is written first for a block that was read. -/
def heading (b : Block) : String :=
  b.title ++ " \x7b"

/-
  What is written for a block that failed, from its first
  line feed on.
-/
def beyondLine (b : Block) : String :=
  String.ofList
    ((b.title.toList ++ ['\n']).dropWhile (· != '\n'))

/- The tokens of a heading: keyword, name and brace. -/
def IsHeadedBy
    (b : Block)
    (name : String)
    (ts : List Token) : Prop :=
  ∃ k n l,
    ts = [k, n, l]
      ∧ k.kind = .ident
      ∧ k.text = b.keyword
      ∧ n.isWord = true
      ∧ n.text = name
      ∧ l.kind = .lBrace

end Block

------------------------------------------------------------
-- Names in Quotes
------------------------------------------------------------

/- A text is no longer than what it is written with. -/
theorem Content.length_le
    {closed : Bool}
    {body text : List Char}
    (hContent : Content closed body text) :
    text.length ≤ body.length := by
  induction hContent with
  | nil => exact Nat.le_refl _
  | lastBackslash => exact Nat.le_refl _
  | escape _ _ ih => simpa using Nat.le_succ_of_le ih
  | backslash _ _ _ ih => simpa using ih
  | plain _ _ _ ih => simpa using ih

namespace Writes

variable {source rest : List Char}
variable {x : Spelling}

/- A word is written as it is. -/
theorem source_of_ident
    (hWrites : Writes rest source x)
    (hKind : x.kind = .ident) :
    source = x.text.toList := by
  cases hWrites with
  | punctuation => exact String.toList_ofList.symm
  | word => exact String.toList_ofList.symm
  | string => cases hKind

/- A string is written in quotes, and is no longer there. -/
theorem source_of_str
    (hWrites : Writes rest source x)
    (hKind : x.kind = .str) :
    ∃ body,
      source = '"' :: (body ++ ['"'])
        ∧ x.text.toList.length ≤ body.length := by
  cases hWrites with
  | punctuation hMark =>
      have hScalar := (plain_of_punctuation hMark).1
      obtain rfl : _ = TokenKind.str := hKind
      simp [TokenKind.isScalar] at hScalar
  | word =>
      simp only [wordKind] at hKind
      split at hKind <;> cases hKind
  | string hContent =>
      refine ⟨_, rfl, ?_⟩
      rw [String.toList_ofList]
      exact hContent.length_le

end Writes

namespace Tiling

variable {p : Position}
variable {text : List Char}
variable {t : Token}
variable {ts : List Token}
variable {ds : List Diagnostic}

/- A token before others is closed. -/
theorem take_token
    (hMore : ts ≠ [])
    (hTiling : Tiling p text (t :: ts) ds) :
    ∃ gap source rest q,
      text = gap ++ (source ++ rest)
        ∧ Writes rest source t.spelling
        ∧ Tiling q rest ts ds := by
  cases hTiling with
  | openString => exact absurd rfl hMore
  | token _ hWrites hRest =>
      exact ⟨_, _, _, _, rfl, hWrites, hRest⟩

theorem ne_nil
    (hTiling : Tiling p text (t :: ts) ds) :
    text ≠ [] := by
  cases hTiling with
  | openString => simp
  | token _ hWrites => simp [hWrites.source_ne_nil]

/-
  In a heading there is no room for the quotes of a string
  that says the name: they would take the place of the blank
  after the keyword.
-/
theorem not_str_of_heading
    {keyword name : List Char}
    {k n l : Token}
    (hKind : k.kind = .ident)
    (hKeyword : k.text.toList = keyword)
    (hName : n.text.toList = name)
    (hTiling :
      Tiling p (keyword ++ ' ' :: (name ++ [' ', '\x7b']))
        [k, n, l] ds) :
    n.kind ≠ .str := by
  intro hString
  rcases hTiling.take_token (by simp) with
    ⟨gap, source, rest, q, hText, hFirst, hRest⟩
  rcases hRest.take_token (by simp) with
    ⟨gap', source', rest', q', rfl, hSecond, hLast⟩
  have hSource : source = keyword :=
    (hFirst.source_of_ident hKind).trans hKeyword
  rcases hSecond.source_of_str hString with ⟨body, rfl, hLong⟩
  rw [show n.spelling.text.toList = name from hName] at hLong
  have hSome := List.length_pos_iff.mpr hLast.ne_nil
  have hLength := congrArg List.length hText
  simp only [hSource, List.length_append, List.length_cons,
    List.length_nil] at hLength
  obtain rfl : gap = [] :=
    List.length_eq_zero_iff.mp (by omega)
  obtain rfl : gap' = [] :=
    List.length_eq_zero_iff.mp (by omega)
  rw [hSource, List.nil_append, List.nil_append,
    List.append_cancel_left_eq] at hText
  simp at hText

end Tiling

------------------------------------------------------------
-- Headings
------------------------------------------------------------

namespace Block

theorem toList_heading
    {b : Block}
    {name : String}
    (hName : b.name = some name) :
    b.heading.toList
      = b.keyword.toList
          ++ ' ' :: (name.toList ++ [' ', '\x7b']) := by
  simp [heading, title, hName]

/- A heading is read back if the name is one word. -/
theorem isHeadedBy_of_ident
    {b : Block}
    {name : String}
    (hKeyword : Word.isIdent b.keyword.toList = true)
    (hName : b.name = some name)
    (hIdent : Word.isIdent name.toList = true) :
    b.IsHeadedBy name (tokenize b.heading).1 := by
  have hNames :
      ∀ name ∈ b.name, Word.isIdent name.toList = true := by
    intro other hOther
    obtain rfl : name = other := by simpa [hName] using hOther
    exact hIdent
  have hBrace : Spells ['\x7b'] [⟨.lBrace, "\x7b"⟩] :=
    spells_punctuation rfl
  have hSpells :=
    (spells_title hKeyword hNames).join (s := ' ')
      (by decide) hBrace
  have hText :
      String.ofList (b.title.toList ++ ' ' :: ['\x7b'])
        = b.heading := by
    simp [heading]
  have hSpelled := hSpells.tokenize.1
  rw [hText, titleSpelling, hName] at hSpelled
  simp only [Option.toList_some, List.map_cons, List.map_nil,
    List.cons_append, List.nil_append,
    List.map_eq_cons_iff, List.map_eq_nil_iff] at hSpelled
  rcases hSpelled with
    ⟨k, _, hTokens, hFirst, n, _, rfl, hSecond, l, _, rfl,
      hThird, rfl⟩
  refine ⟨k, n, l, hTokens, congrArg Spelling.kind hFirst,
    congrArg Spelling.text hFirst, ?_,
    congrArg Spelling.text hSecond,
    congrArg Spelling.kind hThird⟩
  have hKind : n.kind = .ident := congrArg Spelling.kind hSecond
  simp [Token.isWord, hKind]

/-
  The heading of a block is read back if and only if its name
  is one word. A name that is quoted in the script is written
  without its quotes.
-/
theorem isHeadedBy_iff
    {b : Block}
    {name : String}
    (hKeyword : Word.isIdent b.keyword.toList = true)
    (hName : b.name = some name) :
    b.IsHeadedBy name (tokenize b.heading).1
      ↔ LexesAsIdent name := by
  rw [lexesAsIdent_iff]
  constructor
  · rintro ⟨k, n, l, hTokens, hKind, hText, hWord, rfl, -⟩
    have hMember : n ∈ (tokenize b.heading).1 := by
      simp [hTokens]
    have hTiling := tiling_tokenize b.heading
    rw [hTokens, toList_heading hName] at hTiling
    have hString :=
      hTiling.not_str_of_heading hKind (by rw [hText]) rfl
    have hIdent : n.kind = .ident := by
      simpa [Token.isWord, hString] using hWord
    exact isIdent_of_token hMember hIdent
  · exact isHeadedBy_of_ident hKeyword hName

end Block

------------------------------------------------------------
-- Failed Blocks
------------------------------------------------------------

/- Where a text stands, it is read as the same tokens. -/
theorem Lexer.spelling_tokens
    (l : Lexer)
    (hPending : l.pending = []) :
    l.tokens.map Token.spelling
      = (tokenize (String.ofList l.rest)).1.map
          Token.spelling := by
  have hFar :
      l.position.offset
        = Position.first.offset + l.position.offset := by
    rw [Position.first, Nat.zero_add]
  rcases (l.tiling hPending).move hFar with
    ⟨ts, ds, hThere, hMoved, -⟩
  have hTokens : (tokenize (String.ofList l.rest)).1 = ts := by
    rw [tokenize_eq]
    exact (hThere.unique rfl (by simp [Lexer.ofSource]) rfl).1
  rw [hTokens, ← List.forall₂_eq_eq_eq,
    List.forall₂_map_left_iff, List.forall₂_map_right_iff]
  refine hMoved.flip.imp ?_
  intro t t' hToken
  simp only [Token.spelling, hToken.kind_eq, hToken.text_eq]

/- Layout in front of a text is read as no tokens. -/
theorem spelling_tokenize_piece
    {piece : List Char}
    (rest : List Char)
    (hPiece : Piece piece) :
    (tokenize (String.ofList (piece ++ rest))).1.map
        Token.spelling
      = (tokenize (String.ofList rest)).1.map Token.spelling := by
  let l := Lexer.ofSource (String.ofList (piece ++ rest))
  have hText : l.rest = piece ++ rest := by
    simp [l, Lexer.ofSource]
  have hNext := Lexer.next_piece hPiece hText
  have hSame := (l.past piece).spelling_tokens rfl
  rw [Lexer.rest_past hText] at hSame
  rw [tokenize_eq, Lexer.tokens_of_next_eq hNext, hSame]

/- Every text with a line feed has a first line. -/
theorem exists_firstLine
    (text : List Char) :
    ∃ line rest,
      '\n' ∉ line
        ∧ text ++ ['\n'] = line ++ '\n' :: rest
        ∧ (text ++ ['\n']).dropWhile (· != '\n')
            = '\n' :: rest := by
  induction text with
  | nil => exact ⟨[], [], by simp, rfl, rfl⟩
  | cons c text ih =>
      by_cases hFeed : c = '\n'
      · subst hFeed
        exact ⟨[], text ++ ['\n'], by simp, rfl, rfl⟩
      · rcases ih with ⟨line, rest, hLine, hText, hDrop⟩
        refine ⟨c :: line, rest, ?_, ?_, ?_⟩
        · simp [hLine, Ne.symm hFeed]
        · rw [List.cons_append, hText, List.cons_append]
        · rw [List.cons_append,
            List.dropWhile_cons_of_pos (by simpa using hFeed),
            hDrop]

namespace Block

/-
  What is written for a failed block is a comment up to its
  first line feed. It is read as what follows.
-/
theorem spelling_written_failed
    {b : Block}
    (hFailed : b.outcome = .failed) :
    (tokenize (String.ofList b.written)).1.map Token.spelling
      = (tokenize b.beyondLine).1.map Token.spelling := by
  rcases exists_firstLine b.title.toList with
    ⟨line, rest, hLine, hText, hDrop⟩
  have hComment :
      Piece ('/' :: '/' :: (" failed: ".toList ++ line ++ ['\n'])) := by
    apply Piece.line
    rw [List.mem_append, not_or]
    exact ⟨by decide, hLine⟩
  have hWritten :
      b.written
        = '/' :: '/' :: (" failed: ".toList ++ line ++ ['\n'])
            ++ rest := by
    simp only [written, hFailed, List.append_assoc, hText]
    simp
  have hFeed : Piece ['\n'] := .blank (by decide)
  rw [hWritten, spelling_tokenize_piece rest hComment,
    beyondLine, hDrop]
  exact (spelling_tokenize_piece rest hFeed).symm

/- Without a line feed in its name nothing is left of it. -/
theorem tokens_written_failed
    {b : Block}
    (hKeyword : Word.isIdent b.keyword.toList = true)
    (hFailed : b.outcome = .failed)
    (hLine : ∀ name ∈ b.name, '\n' ∉ name.toList) :
    (tokenize (String.ofList b.written)).1 = [] := by
  have hTitle : '\n' ∉ b.title.toList := by
    have hWord := Word.feed_not_mem hKeyword
    unfold title
    rcases hName : b.name with _ | name
    · exact hWord
    · simp [hWord, hLine name hName]
  have hBeyond : b.beyondLine = String.ofList (['\n'] ++ []) := by
    have hAll : ∀ c ∈ b.title.toList, (c != '\n') = true := by
      intro c hc
      rw [bne_iff_ne]
      rintro rfl
      exact hTitle hc
    rw [beyondLine, List.dropWhile_append_of_pos hAll]
    rfl
  have hFeed : Piece ['\n'] := .blank (by decide)
  have hSame := spelling_written_failed hFailed
  rw [hBeyond, spelling_tokenize_piece [] hFeed] at hSame
  have hEmpty : (tokenize (String.ofList [])).1 = [] := by
    decide +kernel
  rw [hEmpty, List.map_nil, List.map_eq_nil_iff] at hSame
  exact hSame

end Block

------------------------------------------------------------
-- Scripts
------------------------------------------------------------

namespace Script

/- The text of a block is part of what is written. -/
theorem written_infix_render
    {s : Script}
    {b : Block}
    (hb : b ∈ s.blocks) :
    b.written <:+: s.render.toList := by
  rcases List.append_of_mem hb with ⟨front, back, hBlocks⟩
  refine ⟨front.flatMap Block.written,
    back.flatMap Block.written, ?_⟩
  simp [render, hBlocks]

/-
  What is read back from the text of each block, where bodies
  leave the headers of their blocks. The heading
  of a block that was read gives its keyword, its name and a
  brace if and only if the name is one word. The text of a
  block that failed gives what follows the first line feed in
  its name, and nothing if there is none.
-/
theorem written_of_parse
    (r : Registry)
    (source : String)
    (hKeeps : r.KeepsHeaders) :
    ∀ b ∈ (parse r source).blocks,
      b.written <:+: (parse r source).render.toList
        ∧ (∀ fields,
            b.outcome = .parsed fields →
              b.written
                  = b.heading.toList
                      ++ '\n' :: (fields.flatMap Field.written
                        ++ ['\x7d', '\n'])
                ∧ ∀ name,
                    b.name = some name →
                      (b.IsHeadedBy name (tokenize b.heading).1
                        ↔ LexesAsIdent name))
        ∧ (b.outcome = .failed →
            (tokenize (String.ofList b.written)).1.map
                  Token.spelling
                = (tokenize b.beyondLine).1.map Token.spelling
              ∧ ((∀ name ∈ b.name, '\n' ∉ name.toList) →
                  (tokenize (String.ofList b.written)).1
                    = [])) := by
  intro b hb
  have hKeyword : Word.isIdent b.keyword.toList = true := by
    rcases origin_of_parse hKeeps hb with ⟨hFrom, -⟩
    rcases hFrom.keyword with ⟨t, ht, hKind, hText⟩
    rw [hText]
    exact isIdent_of_token ht hKind
  refine ⟨written_infix_render hb, ?_, ?_⟩
  · intro fields hParsed
    constructor
    · simp [Block.written, hParsed, Block.heading]
    · intro name hName
      exact Block.isHeadedBy_iff hKeyword hName
  · intro hFailed
    exact ⟨Block.spelling_written_failed hFailed,
      Block.tokens_written_failed hKeyword hFailed⟩

/- A name in quotes that need not have any. -/
theorem written_of_parse_quoted :
    ∃ b ∈ (parse .standard "physics \"rock\" \x7b \x7d").blocks,
      b.outcome = .parsed []
        ∧ b.name = some "rock"
        ∧ b.IsHeadedBy "rock" (tokenize b.heading).1 := by
  have hBlocks :
      (parse .standard
          "physics \"rock\" \x7b \x7d").blocks.map
            (fun b => (b.name, b.fields?.map List.length))
        = [(some "rock", some 0)] := by
    decide +kernel
  rcases List.map_eq_singleton_iff.mp hBlocks with
    ⟨b, hOne, hFound⟩
  rw [Prod.mk.injEq] at hFound
  have hb :
      b ∈ (parse .standard "physics \"rock\" \x7b \x7d").blocks := by
    simp [hOne]
  have hParsed : b.outcome = .parsed [] := by
    have hFields := hFound.2
    unfold Block.fields? at hFields
    split at hFields <;> simp_all
  have hIdent : LexesAsIdent "rock" := by decide
  have hPlain : Registry.standard.Plain := by decide
  have hKeeps := hPlain.keepsHeaders
  refine ⟨b, hb, hParsed, hFound.1, ?_⟩
  exact (((written_of_parse .standard _ hKeeps b hb).2.1 []
    hParsed).2
    "rock" hFound.1).mpr hIdent

/- A block with a name of two words. -/
def twoWords : String :=
  "physics \"two words\" \x7b \x7d"

/- A block with no body, and a line feed in its name. -/
def twoLines : String :=
  "physics \"one\ntech two \x7b \x7d\" salary \x7b \x7d"

/-
  Two words in quotes are not read back as one name, and what
  follows a line feed in the name of a block that failed is
  read as another block.
-/
theorem written_not_read_back :
    ¬ (∀ b ∈ (parse .standard twoWords).blocks,
        b.isFailed = false →
          ∀ name,
            b.name = some name →
              b.IsHeadedBy name (tokenize b.heading).1)
      ∧ ¬ (∀ b ∈ (parse .standard twoLines).blocks,
            b.isFailed = true →
              (tokenize (String.ofList b.written)).1 = []) := by
  constructor
  · intro hAll
    have hBlocks :
        (parse .standard twoWords).blocks.map
            (fun b =>
              (b.isFailed, b.name, (tokenize b.heading).1.length))
          = [(false, some "two words", 4)] := by
      decide +kernel
    rcases List.map_eq_singleton_iff.mp hBlocks with
      ⟨b, hOne, hFound⟩
    simp only [Prod.mk.injEq] at hFound
    rw [hOne] at hAll
    rcases hAll b (List.mem_singleton_self b) hFound.1 _
      hFound.2.1 with ⟨k, n, l, hTokens, -⟩
    simp [hTokens] at hFound
  · intro hAll
    have hBlocks :
        (parse .standard twoLines).blocks.map
            (fun b =>
              (b.isFailed,
                (tokenize (String.ofList b.written)).1.length))
          = [(true, 4), (false, 3)] := by
      decide +kernel
    rcases List.map_eq_cons_iff.mp hBlocks with
      ⟨b, bs, hSome, hFound, -⟩
    simp only [Prod.mk.injEq] at hFound
    rw [hSome] at hAll
    have hNone := hAll b (.head bs) hFound.1
    simp [hNone] at hFound

end Script
end BlockScript
