import BlockScript.Proofs.Denotation
import BlockScript.Proofs.Spelling.Numbers

/-
  This file shows that a value is read back from its text.
  Only the type says where one part of a record ends and the
  next one begins, so the value must have the type at which
  it is read.

  Key definitions include:
    * `Value.spelling`
    * `ValueType.admits`

  Key theorems include:
    * `Value.spells_written`
    * `ValueType.denotes_of_spelling`
    * `ValueType.read_text`
-/

namespace BlockScript

------------------------------------------------------------
-- Values in a Script
------------------------------------------------------------

namespace Value

/- The word that a text without quotes is. -/
def plainSpelling (text : List Char) : Spelling :=
  { kind := wordKind text, text := String.ofList text }

def quotedSpelling (text : List Char) : Spelling :=
  { kind := .str, text := String.ofList text }

mutual

/- The tokens that are written for a value. -/
def spelling : Value → List Spelling
  | int n => [plainSpelling (Number.Whole.text n)]
  | float x => [plainSpelling x.text]
  | bool b => [plainSpelling (boolWord b)]
  | string s => [Word.spelling s.toList]
  | translation s => [quotedSpelling ('_' :: s.toList)]
  | vec2 x y => [quotedSpelling (numbers [x, y])]
  | vec3 x y z => [quotedSpelling (numbers [x, y, z])]
  | vec4 x y z w => [quotedSpelling (numbers [x, y, z, w])]
  | list items =>
      ⟨.lBrace, "\x7b"⟩
        :: (items.map fun item => Word.spelling item.toList)
        ++ [⟨.rBrace, "\x7d"⟩]
  | record parts => spellings parts

/- The tokens that are written for several values. -/
def spellings : List Value → List Spelling
  | [] => []
  | v :: vs => v.spelling ++ spellings vs

end

/- Items are read back up to the brace after them. -/
theorem spells_items
    (items : List String) :
    ∃ more,
      (items.flatMap fun item =>
          ' ' :: Word.written item.toList) ++ [' ', '}']
          = ' ' :: more
        ∧ Spells more
            ((items.map fun item => Word.spelling item.toList)
              ++ [⟨.rBrace, "\x7d"⟩]) := by
  induction items with
  | nil => exact ⟨['}'], rfl, spells_punctuation rfl⟩
  | cons item items ih =>
      obtain ⟨more, hText, hSpells⟩ := ih
      refine ⟨Word.written item.toList ++ ' ' :: more, ?_, ?_⟩
      · rw [List.flatMap_cons, List.append_assoc, hText]
        rfl
      · have hItem := Word.spells_written item.toList
        rw [List.map_cons, List.cons_append,
          ← List.singleton_append]
        exact Spells.join (by decide) hItem hSpells

theorem spells_listed
    (items : List String) :
    Spells (listed items) (list items).spelling := by
  obtain ⟨more, hText, hSpells⟩ := spells_items items
  have hBrace : Spells ['{'] [⟨.lBrace, "\x7b"⟩] :=
    spells_punctuation rfl
  rw [listed, List.cons_append, hText]
  exact Spells.join (by decide) hBrace hSpells

mutual

/- A value is written as the tokens that are to say it. -/
theorem spells_written
    (v : Value) :
    Spells v.written v.spelling := by
  cases v with
  | int n => exact spells_plain (Number.Whole.plainText_text n)
  | float x => exact spells_plain x.plainText_text
  | bool b =>
      apply spells_plain
      cases b with
      | false =>
          exact Number.plainText_of_all (by decide) (by decide)
      | true =>
          exact Number.plainText_of_all (by decide) (by decide)
  | string s => exact Word.spells_written s.toList
  | translation s => exact spells_quoted ('_' :: s.toList)
  | vec2 x y =>
      rw [written, ← quoted_numbers]
      exact spells_quoted (numbers [x, y])
  | vec3 x y z =>
      rw [written, ← quoted_numbers]
      exact spells_quoted (numbers [x, y, z])
  | vec4 x y z w =>
      rw [written, ← quoted_numbers]
      exact spells_quoted (numbers [x, y, z, w])
  | list items => exact spells_listed items
  | record parts =>
      rw [written, spelling]
      exact spells_writtenParts parts

theorem spells_writtenParts
    (vs : List Value) :
    Spells (spaced (writtenParts vs)) (spellings vs) := by
  cases vs with
  | nil => exact Spells.nil
  | cons v vs =>
      have hFirst := spells_written v
      have hRest := spells_writtenParts vs
      cases vs with
      | nil =>
          simp only [writtenParts, spellings, spaced_singleton,
            List.append_nil]
          exact hFirst
      | cons w vs =>
          simp only [writtenParts, spellings, spaced_cons_cons]
          exact Spells.join (by decide) hFirst hRest

end

end Value

------------------------------------------------------------
-- Values of a Type
------------------------------------------------------------

/-
  Whether a value is of a type. Numbers have to be finite. A
  string without the mark in front may stand for a
  translation.
-/
def ScalarType.admits : ScalarType → Value → Bool
  | int, .int _ => true
  | float, .float x => x.isFinite
  | bool, .bool _ => true
  | string, .string _ => true
  | translation, .translation _ => true
  | translation, .string s => s.toList.head? != some '_'
  | vec2, .vec2 x y => x.isFinite && y.isFinite
  | vec3, .vec3 x y z => x.isFinite && y.isFinite && z.isFinite
  | vec4, .vec4 x y z w =>
      x.isFinite && y.isFinite && z.isFinite && w.isFinite
  | _, _ => false

namespace ValueType

mutual

/- Whether a value is of a type, part by part. -/
def admits : ValueType → Value → Bool
  | scalar type, v => type.admits v
  | list, .list _ => true
  | record types, .record vs => admitsParts types vs
  | _, _ => false

/- Whether values are of several types, one by one. -/
def admitsParts : List ValueType → List Value → Bool
  | [], [] => true
  | type :: types, v :: vs =>
      type.admits v && admitsParts types vs
  | _, _ => false

end

end ValueType

------------------------------------------------------------
-- Conversion of Spelled Text
------------------------------------------------------------

theorem isScalar_wordKind
    (word : List Char) :
    (wordKind word).isScalar = true := by
  unfold wordKind
  split <;> rfl

theorem Word.isScalar_spelling
    (text : List Char) :
    (spelling text).kind.isScalar = true := by
  unfold spelling
  split
  · exact isScalar_wordKind text
  · rfl

namespace ScalarType

theorem truth?_boolWord
    (b : Bool) :
    truth? (String.ofList (Value.boolWord b)) = some b := by
  cases b <;> decide

/- A string without the mark stays a string. -/
theorem marked_of_unmarked
    {s : String}
    (hMark : s.toList.head? ≠ some '_') :
    marked s = .string s := by
  unfold marked
  split
  · rename_i rest hText
    simp [hText] at hMark
  · rfl

/-
  A value of a scalar type is one token, which stands for
  that value at the type.
-/
theorem convert?_of_admits
    {type : ScalarType}
    {v : Value}
    (hAdmits : type.admits v = true) :
    ∃ x : Spelling,
      v.spelling = [x]
        ∧ x.kind.isScalar = true
        ∧ type.convert? x.text = some v := by
  unfold admits at hAdmits
  split at hAdmits
  case h_1 n =>
      refine ⟨_, rfl, isScalar_wordKind _, ?_⟩
      simp [convert?, Value.plainSpelling,
        Number.Whole.parse?_text]
  case h_2 x =>
      have hNumber : number? x.text = some x :=
        Number.Binary.parseFinite?_text (by decide) hAdmits
      refine ⟨_, rfl, isScalar_wordKind _, ?_⟩
      simp [convert?, Value.plainSpelling, hNumber]
  case h_3 b =>
      refine ⟨_, rfl, isScalar_wordKind _, ?_⟩
      simp [convert?, Value.plainSpelling, truth?_boolWord]
  case h_4 s =>
      refine ⟨_, rfl, Word.isScalar_spelling _, ?_⟩
      simp [convert?, Word.spelling]
  case h_5 s =>
      refine ⟨_, rfl, rfl, ?_⟩
      simp [convert?, Value.quotedSpelling, marked]
  case h_6 s =>
      refine ⟨_, rfl, Word.isScalar_spelling _, ?_⟩
      have hMark : s.toList.head? ≠ some '_' := by
        simpa using hAdmits
      simp [convert?, Word.spelling, marked_of_unmarked hMark]
  case h_7 x y =>
      have hNumbers : ∀ z ∈ [x, y], z.isFinite = true := by
        simpa using hAdmits
      refine ⟨_, rfl, rfl, ?_⟩
      simp [convert?, Value.quotedSpelling,
        numbers?_numbers hNumbers]
  case h_8 x y z =>
      have hNumbers : ∀ w ∈ [x, y, z], w.isFinite = true := by
        simpa [and_assoc] using hAdmits
      refine ⟨_, rfl, rfl, ?_⟩
      simp [convert?, Value.quotedSpelling,
        numbers?_numbers hNumbers]
  case h_9 x y z w =>
      have hNumbers :
          ∀ u ∈ [x, y, z, w], u.isFinite = true := by
        simpa [and_assoc] using hAdmits
      refine ⟨_, rfl, rfl, ?_⟩
      simp [convert?, Value.quotedSpelling,
        numbers?_numbers hNumbers]
  case h_10 => simp at hAdmits

end ScalarType

------------------------------------------------------------
-- Values Read Back
------------------------------------------------------------

namespace ValueType

/- The tokens that are written for a list are that list. -/
theorem denotes_list
    {ts : List Token}
    (items : List String)
    (hSpelled :
      ts.map Token.spelling = (Value.list items).spelling) :
    Denotes .list ts (.list items) := by
  rw [Value.spelling, List.cons_append,
    List.map_eq_cons_iff] at hSpelled
  obtain ⟨l, rest, rfl, hLeft, hRest⟩ := hSpelled
  obtain ⟨inner, last, rfl, hInner, hLast⟩ :=
    List.map_eq_append_iff.mp hRest
  obtain ⟨r, rfl, hRight⟩ := List.map_eq_singleton_iff.mp hLast
  have hTexts : inner.map Token.text = items := by
    have hMap := congrArg (List.map Spelling.text) hInner
    simpa [Token.spelling, Word.spelling, Function.comp_def]
      using hMap
  have hScalars : ∀ t ∈ inner, t.kind.isScalar = true := by
    intro t ht
    have hMember := List.mem_map_of_mem (f := Token.spelling) ht
    rw [hInner] at hMember
    obtain ⟨item, -, hItem⟩ := List.mem_map.mp hMember
    have hScalar := Word.isScalar_spelling item.toList
    rw [hItem] at hScalar
    exact hScalar
  rw [← hTexts]
  exact Denotes.list (congrArg Spelling.kind hLeft) hScalars
    (congrArg Spelling.kind hRight)

mutual

/- The tokens that are written for a value are that value. -/
theorem denotes_of_spelling
    (type : ValueType)
    {v : Value}
    {ts : List Token}
    (hAdmits : type.admits v = true)
    (hSpelled : ts.map Token.spelling = v.spelling) :
    Denotes type ts v := by
  cases type with
  | scalar type =>
      rw [admits] at hAdmits
      obtain ⟨x, hOne, hScalar, hConvert⟩ :=
        ScalarType.convert?_of_admits hAdmits
      rw [hOne] at hSpelled
      obtain ⟨t, rfl, rfl⟩ := List.map_eq_singleton_iff.mp hSpelled
      exact Denotes.scalar hScalar hConvert
  | list =>
      cases v with
      | list items => exact denotes_list items hSpelled
      | _ => simp [admits] at hAdmits
  | record types =>
      cases v with
      | record vs =>
          rw [admits] at hAdmits
          rw [Value.spelling] at hSpelled
          exact Denotes.record
            (denotesParts_of_spelling types hAdmits hSpelled)
      | _ => simp [admits] at hAdmits

theorem denotesParts_of_spelling
    (types : List ValueType)
    {vs : List Value}
    {ts : List Token}
    (hAdmits : admitsParts types vs = true)
    (hSpelled : ts.map Token.spelling = Value.spellings vs) :
    DenotesParts types ts vs := by
  cases types with
  | nil =>
      cases vs with
      | nil =>
          obtain rfl := List.map_eq_nil_iff.mp hSpelled
          exact DenotesParts.nil
      | cons v vs => simp [admitsParts] at hAdmits
  | cons type types =>
      cases vs with
      | nil => simp [admitsParts] at hAdmits
      | cons v vs =>
          rw [admitsParts, Bool.and_eq_true] at hAdmits
          rw [Value.spellings] at hSpelled
          obtain ⟨us, rest, rfl, hFirst, hRest⟩ :=
            List.map_eq_append_iff.mp hSpelled
          exact DenotesParts.cons
            (denotes_of_spelling type hAdmits.1 hFirst)
            (denotesParts_of_spelling types hAdmits.2 hRest)

end

/- The brace after a value is the last token. -/
theorem tokens_of_rest_brace
    {l : Lexer}
    (hRest : l.rest = [' ', '}']) :
    l.tokens
        = [Spelling.token ⟨.rBrace, "\x7d"⟩
            (l.position.after [' ']) ['}']]
      ∧ l.problems = l.pending := by
  have hBlank : l.next = (l.past [' ']).next :=
    Lexer.next_blank (by decide) hRest
  have hPast : (l.past [' ']).rest = ['}'] ++ [] :=
    Lexer.rest_past hRest
  have hBrace :
      (l.past [' ']).next
        = (some (Spelling.token ⟨.rBrace, "\x7d"⟩
              (l.position.after [' ']) ['}']),
            (l.past [' ']).past ['}']) :=
    Lexer.next_lexeme (by decide) (by decide) rfl hPast
  have hEnd := Lexer.next_of_rest_nil (Lexer.rest_past hPast)
  have hNext := hBlank.trans hBrace
  constructor
  · rw [Lexer.tokens_of_some hNext, Lexer.tokens_of_none hEnd]
  · rw [Lexer.problems_of_some hNext,
      Lexer.problems_of_none hEnd]
    rfl

/-
  A value is read back from its text, up to the brace that
  follows it. Exactly the tokens of the text are taken, the
  nesting is as before, and nothing is reported.
-/
theorem read_text
    {type : ValueType}
    {v : Value}
    (key : String)
    (hAdmits : type.admits v = true) :
    ∃ d : Cursor,
      type.read key (.ofSource (v.text ++ " \x7d")) = (.ok v, d)
        ∧ (Cursor.ofSource (v.text ++ " \x7d")).Takes
            (tokenize v.text).1 [] d
        ∧ d.tokens
            = [Spelling.token ⟨.rBrace, "\x7d"⟩
                (Position.first.after (v.written ++ [' ']))
                ['}']]
        ∧ d.depth
            = (Cursor.ofSource (v.text ++ " \x7d")).depth
        ∧ d.finish = [] := by
  obtain ⟨ts, hSpelled, hLexer⟩ :=
    v.spells_written Position.first
  have hRest :
      (Lexer.ofSource (v.text ++ " \x7d")).rest
        = v.written ++ [' ', '}'] := by
    simp [Lexer.ofSource, Value.text]
  have hEnds : EndsWord [' ', '}'] :=
    endsWord_blank _ (by decide)
  obtain ⟨hTokens, hProblems⟩ := hLexer _ _ hEnds hRest rfl
  obtain ⟨hBrace, hNone⟩ :=
    tokens_of_rest_brace (Lexer.rest_past hRest)
  have hAlone : (tokenize v.text).1 = ts := by
    have hRest :
        (Lexer.ofSource v.text).rest = v.written ++ [] := by
      simp [Lexer.ofSource, Value.text]
    obtain ⟨hTokens, -⟩ := hLexer _ _ endsWord_nil hRest rfl
    have hEnd := Lexer.next_of_rest_nil (Lexer.rest_past hRest)
    rw [Lexer.tokens_of_none hEnd, List.append_nil] at hTokens
    exact hTokens
  have hTokens :
      (Cursor.ofSource (v.text ++ " \x7d")).tokens
        = ts ++ [Spelling.token ⟨.rBrace, "\x7d"⟩
            (Position.first.after (v.written ++ [' ']))
            ['}']] := by
    rw [Position.after_append]
    exact hTokens.trans (congrArg (ts ++ ·) hBrace)
  have hFound :
      (Cursor.ofSource (v.text ++ " \x7d")).found = [] :=
    hProblems.trans hNone
  have hDenotes := denotes_of_spelling type hAdmits hSpelled
  obtain ⟨d, hRead, hMoves⟩ :=
    moves_read type key hDenotes hTokens
  refine ⟨d, hRead, ?_, hMoves.tokens_eq hTokens, ?_, ?_⟩
  · rw [hAlone]
    exact hMoves.takes
  · rw [hMoves.takes.depth, hDenotes.depth_eq]
  · have hNone := d.finish_append
    rw [hMoves.found, hFound, List.append_eq_nil_iff] at hNone
    exact hNone.1

/-
  A record with an empty record in it, a string that has to
  be quoted, and a list with an empty string and a comment.
-/
theorem read_text_record :
    ∃ d : Cursor,
      (record [.scalar .int, .record [], .scalar .translation,
            .list]).read
          "motd"
          (.ofSource "-5  \"a b\" \x7b \"\" \"x//y\" \x7d \x7d")
        = (.ok (.record [.int (-5), .record [], .string "a b",
              .list ["", "x//y"]]),
            d)
        ∧ d.tokens.map Token.spelling = [⟨.rBrace, "\x7d"⟩]
        ∧ d.depth = 0
        ∧ d.finish = [] := by
  have hAdmits :
      (record [.scalar .int, .record [], .scalar .translation,
            .list]).admits
          (.record [.int (-5), .record [], .string "a b",
            .list ["", "x//y"]])
        = true := by
    decide
  obtain ⟨d, hRead, -, hTokens, hDepth, hFinish⟩ :=
    read_text "motd" hAdmits
  refine ⟨d, hRead, ?_, hDepth, hFinish⟩
  rw [hTokens]
  rfl

end ValueType
end BlockScript
