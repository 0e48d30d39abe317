import BlockScript.Proofs.TableGrammar

/-
  This file says what a block of a script can be: it has the
  keyword of a kind that is registered, a name only if that
  kind has one, and fields that the body of the kind allows.
  Keyword and name are words of the script.

  Key definitions include:
    * `Body.Yields`
    * `Registry.Yields`
    * `Registry.lacksName`
    * `Block.ComesFrom`

  Key theorems include:
    * `Cursor.Reaches.tokens_suffix`
    * `Body.yields_of_read`
    * `Registry.yields_readItems`
-/

namespace BlockScript

------------------------------------------------------------
-- Tokens That Are Left
------------------------------------------------------------

/- Tokens are taken from the front. -/
theorem Cursor.Reaches.tokens_suffix
    {c d : Cursor}
    (hReaches : c.Reaches d) :
    d.tokens <:+ c.tokens := by
  induction hReaches with
  | refl => exact List.suffix_refl _
  | peek _ ih => rwa [tokens_peek]
  | next _ ih =>
      rw [tokens_next]
      exact (List.tail_suffix _).trans ih
  | report x _ ih => exact ih
  | checkEnd _ ih => exact ih

------------------------------------------------------------
-- Bodies
------------------------------------------------------------

namespace Body

/- Fields that a body may be read as. -/
def Yields : Body → List Field → Prop
  | unstructured, fields => fields = []
  | table t, fields =>
      ∃ es : List t.Entry,
        es.Pairwise FieldTable.Entry.MayPrecede
          ∧ fields = es.map FieldTable.Entry.field
  | custom _, _ => True

theorem yields_of_read
    {body : Body}
    {h : Header}
    {c d : Cursor}
    {fields : List Field}
    (hRead : body.read h c = (.ok fields, d)) :
    body.Yields fields := by
  cases body with
  | unstructured =>
      simp only [read] at hRead
      split at hRead
      · rw [Prod.mk.injEq, Except.ok.injEq] at hRead
        exact hRead.1.symm
      · simp at hRead
  | table t =>
      have hJudges := t.recognizes_readFields.judges c
      simp only [read] at hRead
      rw [hRead] at hJudges
      cases hJudges with
      | member hMember _ =>
          rcases hMember with ⟨es, hBody, hFields⟩
          exact ⟨es, hBody.once, hFields⟩
  | custom g => trivial

end Body

------------------------------------------------------------
-- Blocks
------------------------------------------------------------

/-
  A block has keyword and name of its header. It was read if
  its body was, and then it has the fields of its body.
-/
theorem Header.finish_cases
    (h : Header)
    (bodyDepth : Nat)
    (x : Reading (List Field)) :
    (h.finish bodyDepth x).1.keyword = h.keyword
      ∧ (h.finish bodyDepth x).1.name = h.name
      ∧ ∀ fields,
          (h.finish bodyDepth x).1.outcome = .parsed fields →
            x.1 = .ok fields := by
  unfold finish
  split
  · split
    · refine ⟨rfl, rfl, ?_⟩
      intro fields hOutcome
      simp only [close, Outcome.parsed.injEq] at hOutcome
      rw [hOutcome]
    · refine ⟨rfl, rfl, ?_⟩
      intro fields hOutcome
      simp [closeAtEnd, close] at hOutcome
  · simp only
    split
    · refine ⟨rfl, rfl, ?_⟩
      intro fields hOutcome
      simp [close] at hOutcome
    · refine ⟨rfl, rfl, ?_⟩
      intro fields hOutcome
      simp [closeAtEnd, close] at hOutcome
  · refine ⟨rfl, rfl, ?_⟩
    intro fields hOutcome
    simp [closeAtEnd, close] at hOutcome

/- A body may leave another header, but only its own fields. -/
theorem Header.readBlock_cases
    (h : Header)
    (body : Body)
    (c : Cursor) :
    (h.readBlock body c).1.keyword = (body.header h c).keyword
      ∧ (h.readBlock body c).1.name = (body.header h c).name
      ∧ ∀ fields,
          (h.readBlock body c).1.outcome = .parsed fields →
            body.Yields fields := by
  rcases (body.header h c).finish_cases c.depth (body.read h c)
    with ⟨hKeyword, hName, hParsed⟩
  refine ⟨hKeyword, hName, ?_⟩
  intro fields hOutcome
  exact Body.yields_of_read
    (Prod.ext (hParsed fields hOutcome) rfl)

/- Keyword and name of a block are among some tokens. -/
structure Block.ComesFrom
    (b : Block)
    (tokens : List Token) : Prop where
  keyword : ∃ t ∈ tokens, t.kind = .ident ∧ b.keyword = t.text
  name :
    ∀ name ∈ b.name,
      ∃ t ∈ tokens, t.isWord = true ∧ name = t.text

theorem Block.ComesFrom.mono
    {b : Block}
    {ts us : List Token}
    (hFrom : b.ComesFrom ts)
    (hMore : ts ⊆ us) :
    b.ComesFrom us := by
  constructor
  · rcases hFrom.keyword with ⟨t, ht, hWord⟩
    exact ⟨t, hMore ht, hWord⟩
  · intro name hName
    rcases hFrom.name name hName with ⟨t, ht, hWord⟩
    exact ⟨t, hMore ht, hWord⟩

namespace Registry

/- All bodies leave the headers of their blocks. -/
def KeepsHeaders (r : Registry) : Prop :=
  ∀ k ∈ r.table.kinds, k.body.KeepsHeader

theorem Plain.keepsHeaders
    {r : Registry}
    (hPlain : r.Plain) :
    r.KeepsHeaders :=
  fun k hMember => Body.keepsHeader_of_plain (hPlain k hMember)

/- A block that a registry may read as one of a kind. -/
structure Yields
    (r : Registry)
    (kind : BlockKind)
    (b : Block) : Prop where
  lookup : r.lookup b.keyword = some kind
  name : kind.named = false → b.name = none
  fields :
    ∀ fields,
      b.outcome = .parsed fields → kind.body.Yields fields

/- Whether a block is without the name of its kind. -/
def lacksName
    (r : Registry)
    (b : Block) : Bool :=
  b.name.isNone && (r.lookup b.keyword).any BlockKind.named

/- The name of a block is the next token, and a word. -/
theorem word_of_readNamed
    {kind : BlockKind}
    {keyword name : String}
    {c : Cursor}
    (hName : (readNamed kind keyword c).1 = some name) :
    ∃ t ∈ c.tokens, t.isWord = true ∧ name = t.text := by
  have hFirst := c.peek_fst
  unfold readNamed readName at hName
  split at hName
  · rcases hPeek : c.peek with ⟨_ | t, d⟩
    · simp [hPeek] at hName
    · rw [hPeek] at hFirst hName
      refine ⟨t, List.mem_of_mem_head? hFirst.symm, ?_⟩
      simp only at hName
      split at hName
      · rename_i hWord
        exact ⟨hWord, (Option.some.inj hName).symm⟩
      · split at hName
        · simp at hName
        · simp at hName
  · simp at hName

/- A block has the keyword and the name that were read. -/
theorem yields_readKind
    {r : Registry}
    {kind : BlockKind}
    {t : Token}
    (c : Cursor)
    (hKeeps : r.KeepsHeaders)
    (hLookup : r.lookup t.text = some kind) :
    (readKind kind t c).1.keyword = t.text
      ∧ (readKind kind t c).1.name
          = (readNamed kind t.text c).1
      ∧ r.Yields kind (readKind kind t c).1 := by
  have hName :
      kind.named = false →
        (readNamed kind t.text c).1 = none := by
    intro hNamed
    simp [readNamed, hNamed]
  have hMember := KindTable.mem_kinds_of_get? hLookup
  rw [readKind_eq, readBraced]
  generalize readNamed kind t.text c = named at hName ⊢
  simp only
  split
  · rename_i l d hEat
    rcases Header.readBlock_cases _ kind.body d with
      ⟨hKeyword, hSame, hFields⟩
    rw [hKeeps kind hMember] at hKeyword hSame
    refine ⟨hKeyword, hSame, ?_, ?_, hFields⟩
    · rw [hKeyword]
      exact hLookup
    · rw [hSame]
      exact hName
  · refine ⟨rfl, rfl, hLookup, hName, ?_⟩
    intro fields hOutcome
    simp [Header.close] at hOutcome

theorem yields_readItem
    {r : Registry}
    {t : Token}
    {c : Cursor}
    {b : Block}
    (hKeeps : r.KeepsHeaders)
    (hBlock : (r.readItem t c).1 = some b) :
    b.ComesFrom (t :: c.tokens) ∧ ∃ kind, r.Yields kind b := by
  unfold readItem at hBlock
  split at hBlock
  · rename_i hKind
    split at hBlock
    · rename_i kind hLookup
      rcases yields_readKind c hKeeps hLookup with
        ⟨hKeyword, hName, hYields⟩
      rw [Option.some.injEq] at hBlock
      rw [hBlock] at hKeyword hName hYields
      refine ⟨⟨?_, ?_⟩, kind, hYields⟩
      · exact ⟨t, List.mem_cons_self, hKind, hKeyword⟩
      · intro name hSome
        rw [hName] at hSome
        rcases word_of_readNamed hSome with ⟨s, hs, hWord⟩
        exact ⟨s, List.mem_cons_of_mem t hs, hWord⟩
    · simp at hBlock
  · simp at hBlock

/-
  Unless a body changes its header, every block begins with
  a word of the script that is the keyword of its kind.
-/
theorem yields_readItems
    {r : Registry}
    (hKeeps : r.KeepsHeaders)
    (blocks : List Block)
    (c : Cursor) :
    ∀ b ∈ (r.readItems blocks c).1,
      b ∈ blocks
        ∨ b.ComesFrom c.tokens ∧ ∃ kind, r.Yields kind b := by
  fun_induction readItems r blocks c with
  | case1 blocks c d hNext =>
      intro b hb
      exact .inl (List.mem_reverse.mp hb)
  | case2 blocks c t d hNext item ih =>
      intro b hb
      have hTokens : c.tokens = t :: d.tokens := by
        have hFirst := c.next_fst
        have hRest := c.tokens_next
        rw [hNext] at hFirst hRest
        rw [hRest]
        exact List.eq_cons_of_mem_head? hFirst.symm
      have hLater : item.2.tokens ⊆ d.tokens :=
        (reaches_readItem r t d).tokens_suffix.subset
      rcases ih b hb with hSeen | ⟨hFrom, hYields⟩
      · rcases List.mem_append.mp hSeen with hNew | hOld
        · rcases yields_readItem hKeeps
            (Option.mem_toList.mp hNew) with ⟨hFrom, hYields⟩
          rw [hTokens]
          exact .inr ⟨hFrom, hYields⟩
        · exact .inl hOld
      · refine .inr ⟨hFrom.mono ?_, hYields⟩
        rw [hTokens]
        intro s hs
        exact List.mem_cons_of_mem t (hLater hs)

end Registry
end BlockScript
