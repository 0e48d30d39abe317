import BlockScript.Proofs.Dispatch
import BlockScript.Proofs.Origins
import BlockScript.Proofs.Spelling.Scripts

/-
  This file shows that the tokens that are written for blocks
  are read as blocks that say the same, if the blocks are
  such as the registry reads.

  Key definitions include:
    * `Field.content`
    * `Block.content`
    * `Block.MissesName`

  Key theorems include:
    * `ValueType.admits_of_denotes`
    * `FieldTable.entries_of_spelling`
    * `Header.readBlock_spelled`
    * `Registry.readItems_spelled`
-/

namespace BlockScript

------------------------------------------------------------
-- Values That Were Read
------------------------------------------------------------

namespace ScalarType

/- Numbers that are read are finite. -/
theorem isFinite_of_numbers?
    {text : String}
    {xs : List Number.Single}
    (hNumbers : numbers? text = some xs) :
    ∀ x ∈ xs, x.isFinite = true := by
  unfold numbers? at hNumbers
  generalize Text.words text.toList = words at hNumbers
  induction words generalizing xs with
  | nil =>
      simp only [List.mapM_nil, pure, Option.some.injEq]
        at hNumbers
      simp [← hNumbers]
  | cons word words ih =>
      simp only [List.mapM_cons, bind, Option.bind_eq_some_iff,
        pure, Option.some.injEq] at hNumbers
      rcases hNumbers with ⟨y, hFirst, ys, hRest, rfl⟩
      intro x hx
      rcases List.mem_cons.mp hx with rfl | hx
      · exact (Option.filter_eq_some_iff.mp hFirst).2
      · exact ih hRest x hx

/- A text that stands for a value gives one of the type. -/
theorem admits_of_convert?
    {type : ScalarType}
    {text : String}
    {v : Value}
    (hConvert : type.convert? text = some v) :
    type.admits v = true := by
  cases type with
  | int =>
      simp only [convert?, Option.map_eq_some_iff] at hConvert
      rcases hConvert with ⟨n, -, rfl⟩
      rfl
  | float =>
      simp only [convert?, Option.map_eq_some_iff] at hConvert
      rcases hConvert with ⟨x, hNumber, rfl⟩
      exact (Option.filter_eq_some_iff.mp hNumber).2
  | bool =>
      simp only [convert?, Option.map_eq_some_iff] at hConvert
      rcases hConvert with ⟨b, -, rfl⟩
      rfl
  | string =>
      simp only [convert?, Option.some.injEq] at hConvert
      rw [← hConvert]
      rfl
  | translation =>
      simp only [convert?, Option.some.injEq, marked] at hConvert
      split at hConvert
      · rw [← hConvert]
        rfl
      · rename_i hMark
        rw [← hConvert, admits, bne_iff_ne]
        intro hHead
        rcases List.head?_eq_some_iff.mp hHead with ⟨rest, hText⟩
        exact hMark rest hText
  | vec2 =>
      simp only [convert?] at hConvert
      split at hConvert
      · rename_i x y hNumbers
        have hFinite := isFinite_of_numbers? hNumbers
        rw [Option.some.injEq] at hConvert
        rw [← hConvert]
        simpa [admits] using hFinite
      · simp at hConvert
  | vec3 =>
      simp only [convert?] at hConvert
      split at hConvert
      · rename_i x y z hNumbers
        have hFinite := isFinite_of_numbers? hNumbers
        rw [Option.some.injEq] at hConvert
        rw [← hConvert]
        simpa [admits, and_assoc] using hFinite
      · simp at hConvert
  | vec4 =>
      simp only [convert?] at hConvert
      split at hConvert
      · rename_i x y z w hNumbers
        have hFinite := isFinite_of_numbers? hNumbers
        rw [Option.some.injEq] at hConvert
        rw [← hConvert]
        simpa [admits, and_assoc] using hFinite
      · simp at hConvert

end ScalarType

namespace ValueType

mutual

/- Tokens that are a value of a type are one of the type. -/
theorem admits_of_denotes
    {type : ValueType}
    {ts : List Token}
    {v : Value}
    (hDenotes : Denotes type ts v) :
    type.admits v = true := by
  cases hDenotes with
  | scalar _ hConvert =>
      rw [admits]
      exact ScalarType.admits_of_convert? hConvert
  | list => rfl
  | record hParts =>
      rw [admits]
      exact admitsParts_of_denotes hParts

theorem admitsParts_of_denotes
    {types : List ValueType}
    {ts : List Token}
    {vs : List Value}
    (hDenotes : DenotesParts types ts vs) :
    admitsParts types vs = true := by
  cases hDenotes with
  | nil => rfl
  | cons hFirst hRest =>
      rw [admitsParts, admits_of_denotes hFirst,
        admitsParts_of_denotes hRest]
      rfl

end

end ValueType

------------------------------------------------------------
-- Entries
------------------------------------------------------------

/- What a field says, without its place. -/
def Field.content (f : Field) : String × Value :=
  (f.key, f.value)

namespace FieldTable

variable {table : FieldTable}

namespace Entry

/- What an entry says, without its tokens. -/
def content (e : table.Entry) : FieldSpec × Value :=
  (e.spec, e.value)

/- Whether entries may stand in a row is told by what they say. -/
theorem pairwise_iff
    (es : List table.Entry) :
    es.Pairwise MayPrecede
      ↔ (es.map content).Pairwise fun x y =>
          x.1.name = y.1.name → y.1.repeatable = true := by
  rw [List.pairwise_map]
  apply List.Pairwise.iff
  intro e e'
  unfold MayPrecede content
  rw [e.name_eq, e'.name_eq]

end Entry

/- The tokens that are written for an entry are one. -/
theorem entry_of_spelling
    {ts : List Token}
    (e : table.Entry)
    (hSpelled : ts.map Token.spelling = e.field.spelling) :
    ∃ e' : table.Entry,
      ts = e'.tokens ∧ e'.content = e.content := by
  rcases List.map_eq_cons_iff.mp hSpelled with
    ⟨key, parts, rfl, hKey, hParts⟩
  have hKind : key.kind = .ident :=
    congrArg Spelling.kind hKey
  have hText : key.text = e.key.text :=
    (congrArg Spelling.text hKey).trans e.name_eq
  have hNamed := e.named
  rw [← hText] at hNamed
  have hDenotes :=
    ValueType.denotes_of_spelling e.spec.type
      (ValueType.admits_of_denotes e.denotes) hParts
  refine ⟨⟨key, e.spec, parts, e.value, ?_, hNamed, hDenotes⟩,
    rfl, rfl⟩
  simp [Token.isWord, hKind]

theorem entries_of_spelling
    {ts : List Token}
    (es : List table.Entry)
    (hSpelled :
      ts.map Token.spelling
        = (es.map Entry.field).flatMap Field.spelling) :
    ∃ es' : List table.Entry,
      ts = es'.flatMap Entry.tokens
        ∧ es'.map Entry.content = es.map Entry.content := by
  induction es generalizing ts with
  | nil =>
      rcases List.map_eq_nil_iff.mp hSpelled with rfl
      exact ⟨[], rfl, rfl⟩
  | cons e es ih =>
      rw [List.map_cons, List.flatMap_cons] at hSpelled
      rcases List.map_eq_append_iff.mp hSpelled with
        ⟨us, vs, rfl, hFirst, hRest⟩
      rcases entry_of_spelling e hFirst with ⟨e', rfl, hSame⟩
      rcases ih hRest with ⟨es', rfl, hSames⟩
      refine ⟨e' :: es', rfl, ?_⟩
      rw [List.map_cons, List.map_cons, hSame, hSames]

/- Entries that say the same are read as the same fields. -/
theorem map_content
    {es es' : List table.Entry}
    (hSame : es'.map Entry.content = es.map Entry.content) :
    (es'.map Entry.field).map Field.content
      = (es.map Entry.field).map Field.content := by
  have hFields :=
    congrArg (List.map fun x => (x.1.name, x.2)) hSame
  rw [List.map_map, List.map_map] at hFields ⊢
  exact hFields

end FieldTable

------------------------------------------------------------
-- Headers
------------------------------------------------------------

namespace Cursor

/- An opening brace in front is taken. -/
theorem moves_eat
    {c : Cursor}
    {l : Token}
    {rest : List Token}
    (hTokens : c.tokens = l :: rest)
    (hLeft : l.kind = .lBrace) :
    ∃ d, c.eat .lBrace = (some l, d) ∧ c.Moves [l] d := by
  rcases moves_next hTokens with ⟨d, hNext, hMoves⟩
  refine ⟨d, ?_, hMoves⟩
  rw [eat_eq, peek_of_tokens hTokens, next_peek, hNext]
  simp [hLeft]

/- A closing brace in front ends a group. -/
theorem skipToClose_brace
    {c : Cursor}
    {t : Token}
    {rest : List Token}
    (hTokens : c.tokens = t :: rest)
    (hRight : t.kind = .rBrace)
    (hDepth : c.depth = 1) :
    ∃ d,
      c.skipToClose 1 = (true, d)
        ∧ c.Moves [t] d
        ∧ d.depth = 0 := by
  rcases moves_next hTokens with ⟨d, hNext, hMoves⟩
  have hZero : d.depth = 0 := by
    rw [hMoves.takes.depth, hDepth]
    simp [depthAfter, hRight]
  refine ⟨d, ?_, hMoves, hZero⟩
  rw [skipToClose_of_open Nat.one_pos (by omega), hNext]
  exact skipToClose_of_closed (.inr (by omega))

end Cursor

/- What a block says, without places. -/
def Block.content
    (b : Block) :
    String × Option String × Option (List (String × Value)) :=
  (b.keyword, b.name, b.fields?.map (List.map Field.content))

/-
  The report at an opening brace that stands where the name
  of a block should.
-/
def Block.MissesName
    (tokens : List Token)
    (b : Block)
    (d : Diagnostic) : Prop :=
  ∃ l ∈ tokens,
    l.kind = .lBrace
      ∧ d
        = (Diagnostic.ofProblem
            (.missingName b.keyword (some l))).placeAt l

namespace Registry

theorem takes_readNamed_word
    {kind : BlockKind}
    {c : Cursor}
    {t : Token}
    {rest : List Token}
    (keyword : String)
    (hNamed : kind.named = true)
    (hTokens : c.tokens = t :: rest)
    (hWord : t.isWord = true) :
    ∃ d,
      readNamed kind keyword c = (some t.text, d)
        ∧ c.Takes [t] [] d := by
  rcases Cursor.moves_next hTokens with ⟨d, hNext, hMoves⟩
  refine ⟨d, ?_, hMoves.takes⟩
  rw [readNamed, if_pos hNamed, readName,
    Cursor.peek_of_tokens hTokens]
  simp only [if_pos hWord, Cursor.next_peek, hNext]

theorem takes_readNamed_brace
    {kind : BlockKind}
    {c : Cursor}
    {l : Token}
    {rest : List Token}
    (keyword : String)
    (hNamed : kind.named = true)
    (hTokens : c.tokens = l :: rest)
    (hLeft : l.kind = .lBrace) :
    ∃ d,
      readNamed kind keyword c = (none, d)
        ∧ c.Takes []
            [(Diagnostic.ofProblem
                (.missingName keyword (some l))).placeAt l] d := by
  have hWord : ¬ l.isWord = true := by
    simp [Token.isWord, hLeft]
  refine ⟨_, ?_, c.takes_peek.trans (Cursor.takes_reportAt _ _ _)⟩
  rw [readNamed, if_pos hNamed, readName,
    Cursor.peek_of_tokens hTokens]
  simp only [if_neg hWord, if_pos (Or.inl hLeft)]

end Registry

------------------------------------------------------------
-- Bodies
------------------------------------------------------------

/-
  The tokens that are written for fields are read as fields
  that say the same.
-/
theorem Header.readBlock_spelled
    {body : Body}
    {fields : List Field}
    {c : Cursor}
    {ts rest : List Token}
    (h : Header)
    (hCustom : body.isCustom = false)
    (hYields : body.Yields fields)
    (hDepth : c.depth = 1)
    (hTokens : c.tokens = ts ++ rest)
    (hSpelled :
      ts.map Token.spelling
        = fields.flatMap Field.spelling
            ++ [⟨.rBrace, "\x7d"⟩]) :
    ∃ again d,
      h.readBlock body c = (h.close (.parsed again) d, d)
        ∧ again.map Field.content = fields.map Field.content
        ∧ c.Takes ts [] d
        ∧ d.depth = 0 := by
  rcases List.map_eq_append_iff.mp hSpelled with
    ⟨inner, last, rfl, hInner, hLast⟩
  rcases List.map_eq_singleton_iff.mp hLast with ⟨t, rfl, hBrace⟩
  have hRight : t.kind = .rBrace :=
    congrArg Spelling.kind hBrace
  cases body with
  | unstructured =>
      rcases hYields with rfl
      rcases List.map_eq_nil_iff.mp hInner with rfl
      rcases Cursor.skipToClose_brace hTokens hRight hDepth with
        ⟨d, hSkip, hMoves, hZero⟩
      refine ⟨[], d, ?_, rfl, hMoves.takes, hZero⟩
      rw [readBlock_unstructured, hDepth, hSkip]
  | table table =>
      rcases hYields with ⟨es, hOnce, rfl⟩
      rcases FieldTable.entries_of_spelling es hInner with
        ⟨es', rfl, hSame⟩
      have hOnce' : es'.Pairwise FieldTable.Entry.MayPrecede := by
        rw [FieldTable.Entry.pairwise_iff, hSame]
        exact (FieldTable.Entry.pairwise_iff es).mp hOnce
      have hBody :
          table.IsBody
            (es'.flatMap FieldTable.Entry.tokens ++ [t]) es' :=
        ⟨hOnce', t, hRight, rfl⟩
      rcases table.recognizes_readFields.reads
        ⟨es', hBody, rfl⟩ hTokens with ⟨d, hRead, hMoves⟩
      have hStays :=
        table.stays_readFields [] (c := c) (by omega)
      rw [hRead] at hStays
      cases hStays with
      | ok hSkip hAfter =>
          have hZero : d.depth = 0 := by omega
          refine ⟨_, d, ?_, FieldTable.map_content hSame,
            hMoves.takes, hZero⟩
          have hClosed :
              d.skipToClose 1 = (true, d) :=
            Cursor.skipToClose_of_closed (.inr (by omega))
          simp only [readBlock, Body.header, Body.read, hRead,
            hDepth, finish, hClosed]
          rfl
  | custom g => simp [Body.isCustom] at hCustom

------------------------------------------------------------
-- Blocks
------------------------------------------------------------

namespace Registry

variable {r : Registry}
variable {kind : BlockKind}
variable {b : Block}

/-
  The name that was written is read, and only its absence is
  reported, if the kind has names.
-/
theorem takes_readNamed_spelled
    {c : Cursor}
    {l : Token}
    {ts rest tokens : List Token}
    (hYields : r.Yields kind b)
    (hTokens : c.tokens = ts ++ l :: rest)
    (hSpelled :
      ts.map Token.spelling
        = b.name.toList.map fun name => ⟨.ident, name⟩)
    (hLeft : l.kind = .lBrace)
    (hMember : l ∈ tokens) :
    ∃ reports d,
      readNamed kind b.keyword c = (b.name, d)
        ∧ c.Takes ts reports d
        ∧ (∀ t ∈ ts, t.kind ≠ .lBrace)
        ∧ List.Forall₂ (Block.MissesName tokens) ([b].filter r.lacksName)
            reports := by
  have hLookup := hYields.lookup
  rcases hName : b.name with _ | name
  · rw [hName] at hSpelled
    rcases List.map_eq_nil_iff.mp hSpelled with rfl
    rcases hNamed : kind.named with _ | _
    · have hLacks : [b].filter r.lacksName = [] := by
        simp [lacksName, hLookup, hNamed]
      refine ⟨[], c, ?_, .refl c, by simp, by rw [hLacks]; exact .nil⟩
      simp [readNamed, hNamed]
    · have hLacks : [b].filter r.lacksName = [b] := by
        simp [lacksName, hLookup, hName, hNamed]
      rcases takes_readNamed_brace b.keyword hNamed hTokens hLeft
        with ⟨d, hRead, hTakes⟩
      refine ⟨_, d, hRead, hTakes, by simp, ?_⟩
      rw [hLacks]
      exact .cons ⟨l, hMember, hLeft, rfl⟩ .nil
  · have hNamed : kind.named = true := by
      rw [← Bool.not_eq_false]
      intro hUnnamed
      simp [hYields.name hUnnamed] at hName
    have hLacks : [b].filter r.lacksName = [] := by
      simp [lacksName, hName]
    rw [hName] at hSpelled
    rcases List.map_eq_singleton_iff.mp hSpelled with
      ⟨t, rfl, hToken⟩
    have hKind : t.kind = .ident := congrArg Spelling.kind hToken
    have hText : t.text = name := congrArg Spelling.text hToken
    rcases takes_readNamed_word b.keyword hNamed hTokens
      (by simp [Token.isWord, hKind]) with ⟨d, hRead, hTakes⟩
    rw [hText] at hRead
    refine ⟨[], d, hRead, hTakes, by simp [hKind], ?_⟩
    rw [hLacks]
    exact .nil

/- What was written after a keyword is read back. -/
theorem readKind_spelled
    {fields : List Field}
    {c : Cursor}
    {k l : Token}
    {names inner rest tokens : List Token}
    (hYields : r.Yields kind b)
    (hCustom : kind.body.isCustom = false)
    (hOutcome : b.outcome = .parsed fields)
    (hKeyword : k.text = b.keyword)
    (hDepth : c.depth = 0)
    (hTokens : c.tokens = names ++ l :: (inner ++ rest))
    (hNames :
      names.map Token.spelling
        = b.name.toList.map fun name => ⟨.ident, name⟩)
    (hLeft : l.kind = .lBrace)
    (hMember : l ∈ tokens)
    (hInner :
      inner.map Token.spelling
        = fields.flatMap Field.spelling
            ++ [⟨.rBrace, "\x7d"⟩]) :
    ∃ again reports d,
      readKind kind k c = (again, d)
        ∧ again.content = b.content
        ∧ c.Takes (names ++ l :: inner) reports d
        ∧ d.depth = 0
        ∧ List.Forall₂ (Block.MissesName tokens) ([b].filter r.lacksName)
            reports := by
  rcases takes_readNamed_spelled hYields hTokens hNames hLeft
    hMember with ⟨reports, d, hName, hTakes, hPlain, hReports⟩
  have hRest : d.tokens = l :: (inner ++ rest) := by
    have hAll := hTakes.tokens
    rw [hTokens] at hAll
    exact (List.append_cancel_left hAll).symm
  rcases Cursor.moves_eat hRest hLeft with ⟨e, hEat, hBrace⟩
  have hOne : e.depth = 1 := by
    rw [hBrace.takes.depth, hTakes.depth, hDepth,
      Cursor.depth_of_plain hPlain]
    simp [Cursor.depthAfter, hLeft]
  rw [readKind_eq, hKeyword, hName, readBraced]
  simp only [hEat]
  rcases Header.readBlock_spelled
    { keyword := k.text,
      name := b.name,
      span :=
        { start := k.span.start, stop := e.lastSpan.stop } }
    hCustom (hYields.fields fields hOutcome) hOne
    (hBrace.tokens_eq hRest) hInner with
    ⟨again, e', hRead, hSame, hBody, hZero⟩
  have hAll := (hTakes.trans hBrace.takes).trans hBody
  rw [List.append_nil, List.append_nil, List.append_assoc]
    at hAll
  refine ⟨_, reports, e', hRead, ?_, hAll, hZero, hReports⟩
  simp only [Block.content, Block.fields?, Header.close,
    hOutcome, Option.map_some, hSame, hKeyword]

/-
  A block that was read and written is read back, and no more
  is taken than was written for it.
-/
theorem readItems_block
    {fields : List Field}
    {c : Cursor}
    {ts rest tokens : List Token}
    (blocks : List Block)
    (hYields : r.Yields kind b)
    (hCustom : kind.body.isCustom = false)
    (hOutcome : b.outcome = .parsed fields)
    (hDepth : c.depth = 0)
    (hTokens : c.tokens = ts ++ rest)
    (hSpelled : ts.map Token.spelling = b.spelling)
    (hMember : ∀ t ∈ ts, t ∈ tokens) :
    ∃ again reports d,
      r.readItems blocks c = r.readItems (again :: blocks) d
        ∧ again.content = b.content
        ∧ c.Takes ts reports d
        ∧ d.depth = 0
        ∧ List.Forall₂ (Block.MissesName tokens) ([b].filter r.lacksName)
            reports := by
  simp only [Block.spelling, hOutcome, Block.titleSpelling,
    List.cons_append] at hSpelled
  rcases List.map_eq_cons_iff.mp hSpelled with
    ⟨k, taken, rfl, hKeyword, hTaken⟩
  rcases List.map_eq_append_iff.mp hTaken with
    ⟨names, group, rfl, hNames, hGroup⟩
  rcases List.map_eq_cons_iff.mp hGroup with
    ⟨l, inner, rfl, hBrace, hInner⟩
  have hIdent : k.kind = .ident := congrArg Spelling.kind hKeyword
  have hText : k.text = b.keyword :=
    congrArg Spelling.text hKeyword
  have hLookup := hYields.lookup
  rw [← hText] at hLookup
  simp only [List.cons_append, List.append_assoc] at hTokens
  rcases Cursor.moves_next hTokens with ⟨d, hNext, hMoves⟩
  have hTop : d.depth = 0 := by
    rw [hMoves.takes.depth, hDepth]
    simp [Cursor.depthAfter, hIdent]
  rcases readKind_spelled hYields hCustom hOutcome hText hTop
    (hMoves.tokens_eq hTokens) hNames
    (congrArg Spelling.kind hBrace) (hMember l (by simp)) hInner
    with ⟨again, reports, e, hRead, hSame, hTakes, hZero, hReports⟩
  refine ⟨again, reports, e, ?_, hSame,
    hMoves.takes.trans hTakes, hZero, hReports⟩
  rw [readItems_of_some r blocks hNext, readItem, if_pos hIdent,
    hLookup]
  simp only [hRead]
  rfl

/-
  Blocks that were read and written are read back, one after
  the other.
-/
theorem readItems_spelled
    {bs : List Block}
    {c : Cursor}
    {tokens : List Token}
    (blocks : List Block)
    (hBlocks :
      ∀ b ∈ bs,
        b.isFailed = false
          ∧ ∃ kind,
              r.Yields kind b ∧ kind.body.isCustom = false)
    (hDepth : c.depth = 0)
    (hSpelled :
      c.tokens.map Token.spelling = bs.flatMap Block.spelling)
    (hMember : ∀ t ∈ c.tokens, t ∈ tokens) :
    ∃ again reports d,
      r.readItems blocks c = (blocks.reverse ++ again, d)
        ∧ again.map Block.content = bs.map Block.content
        ∧ c.Takes c.tokens reports d
        ∧ List.Forall₂ (Block.MissesName tokens) (bs.filter r.lacksName)
            reports := by
  induction bs generalizing blocks c with
  | nil =>
      have hEnd := List.map_eq_nil_iff.mp hSpelled
      refine ⟨[], [], c.peek.2, ?_, rfl, ?_, .nil⟩
      · rw [readItems_of_none r blocks
          (Cursor.next_of_tokens_nil hEnd), List.append_nil]
      · rw [hEnd]
        exact c.takes_peek
  | cons b bs ih =>
      rcases hBlocks b List.mem_cons_self with
        ⟨hParsed, kind, hYields, hCustom⟩
      rcases hOutcome : b.outcome with fields | _
      · rw [List.flatMap_cons] at hSpelled
        rcases List.map_eq_append_iff.mp hSpelled with
          ⟨ts, rest, hTokens, hFirst, hRest⟩
        have hListed : ∀ t ∈ ts, t ∈ tokens := by
          intro t ht
          exact hMember t (by simp [hTokens, ht])
        rcases readItems_block blocks hYields hCustom hOutcome
          hDepth hTokens hFirst hListed with
          ⟨again, reports, d, hRead, hSame, hTakes, hZero,
            hReports⟩
        have hLeft : d.tokens = rest := by
          have hAll := hTakes.tokens
          rw [hTokens] at hAll
          exact (List.append_cancel_left hAll).symm
        rcases ih (again :: blocks)
          (fun b hb => hBlocks b (List.mem_cons_of_mem _ hb))
          hZero (by rw [hLeft]; exact hRest)
          (fun t ht =>
            hMember t (by simp [hTokens, ← hLeft, ht])) with
          ⟨more, reports', e, hReads, hSames, hTakes', hReports'⟩
        have hAll := hTakes.trans hTakes'
        rw [hLeft, ← hTokens] at hAll
        refine ⟨again :: more, reports ++ reports', e, ?_, ?_,
          hAll, ?_⟩
        · rw [hRead, hReads]
          simp
        · rw [List.map_cons, List.map_cons, hSame, hSames]
        · have hFilter :
              (b :: bs).filter r.lacksName
                = [b].filter r.lacksName
                    ++ bs.filter r.lacksName :=
            List.filter_append [b] bs
          rw [hFilter]
          exact List.rel_append hReports hReports'
      · simp [Block.isFailed, hOutcome] at hParsed

end Registry

end BlockScript
