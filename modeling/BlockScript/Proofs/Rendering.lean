import BlockScript.Proofs.Prelexed
import BlockScript.Proofs.Rereading
import BlockScript.Registry.Standard

/-
  This file shows that a script that was read and written is
  read back: the blocks that were read come again with their
  fields, and nothing else does. A block without the name
  that it should have is reported for it once more.

  Key definitions include:
    * `Registry.HasIdentFields`

  Key theorems include:
    * `Registry.hasIdentFields_standard`
    * `Script.isWritable_of_parse`
    * `Script.parse_written`
    * `Script.parse_render`
-/

namespace BlockScript

------------------------------------------------------------
-- Names of Fields
------------------------------------------------------------

/- The fields that a body may have, if they are known. -/
def Body.specs : Body → List FieldSpec
  | table t => t.specs
  | _ => []

/- Every name of a field in a table is an identifier. -/
def Registry.HasIdentFields (r : Registry) : Prop :=
  ∀ kind ∈ r.table.kinds,
    ∀ spec ∈ kind.body.specs, LexesAsIdent spec.name

instance
    (r : Registry) :
    Decidable r.HasIdentFields :=
  inferInstanceAs
    (Decidable
      (∀ kind ∈ r.table.kinds,
        ∀ spec ∈ kind.body.specs, LexesAsIdent spec.name))

/- So are those of the kinds known from the start. -/
theorem Registry.hasIdentFields_standard :
    Registry.standard.HasIdentFields := by
  decide

------------------------------------------------------------
-- Written Scripts
------------------------------------------------------------

namespace Script

/- Only blocks that were read are written as tokens. -/
theorem spelling_parsedBlocks
    (s : Script) :
    s.blocks.flatMap Block.spelling
      = s.parsedBlocks.flatMap Block.spelling := by
  unfold parsedBlocks
  induction s.blocks with
  | nil => rfl
  | cons b bs ih =>
      rcases hFailed : b.isFailed with _ | _
      · rw [List.filter_cons_of_pos (by simp [hFailed]),
          List.flatMap_cons, List.flatMap_cons, ih]
      · have hNone : b.spelling = [] := by
          unfold Block.isFailed at hFailed
          unfold Block.spelling
          split at hFailed <;> simp_all
        rw [List.filter_cons_of_neg (by simp [hFailed]),
          List.flatMap_cons, hNone, ih]
        rfl

/- Blocks of a script come from its tokens. -/
theorem origin_of_parse
    {r : Registry}
    {source : String}
    {b : Block}
    (hKeeps : r.KeepsHeaders)
    (hb : b ∈ (parse r source).blocks) :
    b.ComesFrom (tokenize source).1
      ∧ ∃ kind, r.Yields kind b := by
  rcases Registry.yields_readItems hKeeps [] (.ofSource source) b
    hb with hNone | hOrigin
  · simp at hNone
  · exact hOrigin

/- The names of fields that were read are those of a table. -/
theorem ident_of_yields
    {r : Registry}
    {kind : BlockKind}
    {b : Block}
    {fields : List Field}
    (hPlain : r.Plain)
    (hFields : r.HasIdentFields)
    (hYields : r.Yields kind b)
    (hOutcome : b.outcome = .parsed fields) :
    ∀ f ∈ fields, LexesAsIdent f.key := by
  have hKind := KindTable.mem_kinds_of_get? hYields.lookup
  have hRead := hYields.fields fields hOutcome
  have hCustom := hPlain kind hKind
  intro f hf
  cases hBody : kind.body with
  | unstructured =>
      rw [hBody] at hRead
      rcases hRead with rfl
      simp at hf
  | table table =>
      rw [hBody] at hRead
      rcases hRead with ⟨es, -, rfl⟩
      rcases List.mem_map.mp hf with ⟨e, -, rfl⟩
      apply hFields kind hKind e.spec
      rw [hBody]
      exact List.mem_of_find?_eq_some e.named
  | custom g => simp [hBody, Body.isCustom] at hCustom

/- Blocks of a script are written so that they stay apart. -/
theorem isWritable_of_parse
    {r : Registry}
    {source : String}
    {b : Block}
    (hPlain : r.Plain)
    (hFields : r.HasIdentFields)
    (hNames :
      ∀ b ∈ (parse r source).parsedBlocks,
        ∀ name ∈ b.name, LexesAsIdent name)
    (hLines :
      ∀ b ∈ (parse r source).failedBlocks,
        ∀ name ∈ b.name, '\n' ∉ name.toList)
    (hb : b ∈ (parse r source).blocks) :
    b.IsWritable := by
  rcases origin_of_parse hPlain.keepsHeaders hb with
    ⟨hFrom, kind, hYields⟩
  constructor
  · rcases hFrom.keyword with ⟨t, ht, hKind, hKeyword⟩
    rw [hKeyword]
    exact isIdent_of_token ht hKind
  · intro hParsed name hName
    apply lexesAsIdent_iff.mp
    apply hNames b _ name hName
    exact List.mem_filter.mpr ⟨hb, by simp [hParsed]⟩
  · intro fields hOutcome f hf
    apply lexesAsIdent_iff.mp
    exact ident_of_yields hPlain hFields hYields hOutcome f hf
  · intro hFailed
    apply hLines b
    exact List.mem_filter.mpr ⟨hb, hFailed⟩

/-
  Whatever blocks are written, if they are such as the
  registry reads, those that have not failed are read back.
-/
theorem parse_written
    {r : Registry}
    {s : Script}
    (hPlain : r.Plain)
    (hWritable : ∀ b ∈ s.blocks, b.IsWritable)
    (hYields : ∀ b ∈ s.blocks, ∃ kind, r.Yields kind b) :
    (parse r s.render).blocks.map Block.content
        = s.parsedBlocks.map Block.content
      ∧ List.Forall₂
          (Block.MissesName (tokenize s.render).1)
          (s.parsedBlocks.filter r.lacksName)
          (parse r s.render).diagnostics := by
  rcases tokenize_render hWritable with ⟨hSpelled, hClean⟩
  rw [spelling_parsedBlocks] at hSpelled
  have hBlocks :
      ∀ b ∈ s.parsedBlocks,
        b.isFailed = false
          ∧ ∃ kind,
              r.Yields kind b ∧ kind.body.isCustom = false := by
    intro b hb
    rcases List.mem_filter.mp hb with ⟨hMember, hParsed⟩
    rcases hYields b hMember with ⟨kind, hKind⟩
    refine ⟨by simpa using hParsed, kind, hKind, ?_⟩
    exact hPlain kind (KindTable.mem_kinds_of_get? hKind.lookup)
  rcases Registry.readItems_spelled
    (c := .ofTokens (tokenize s.render).1) [] hBlocks rfl
    hSpelled (fun t ht => ht) with
    ⟨again, reports, d, hReads, hSame, hTakes, hReports⟩
  rcases hTakes.listed ⟨_, rfl⟩ with ⟨⟨ts, hSource⟩, hReported⟩
  rcases ofCursor_prelexed hPlain.readsByCursor
    (Cursor.prelexed_ofSource s.render) with
    ⟨hParsed, hSyntactic, hLexical⟩
  rw [hClean] at hLexical
  rw [Diagnostics.syntactic_of_lexical hLexical] at hSyntactic
  rw [← parse] at hParsed hSyntactic
  rw [← hParsed, ← hSyntactic]
  simp only [ofCursor, hReads, Cursor.finish, hSource,
    TokenSource.drain, Array.toList_appendList, hReported,
    List.reverse_nil, List.nil_append, List.append_nil]
  exact ⟨hSame, hReports⟩

/- What a block says tells whether it was read. -/
theorem isFailed_of_content
    {bs bs' : List Block}
    (hSame : bs'.map Block.content = bs.map Block.content)
    (hRead : ∀ b ∈ bs, b.isFailed = false) :
    ∀ b ∈ bs', b.isFailed = false := by
  have hFailed :
      ∀ b : Block, b.isFailed = b.content.2.2.isNone := by
    intro b
    unfold Block.isFailed Block.content Block.fields?
    cases b.outcome <;> rfl
  intro b' hb'
  have hMember := List.mem_map_of_mem (f := Block.content) hb'
  rw [hSame] at hMember
  rcases List.mem_map.mp hMember with ⟨b, hb, hContent⟩
  rw [hFailed, ← hContent, ← hFailed]
  exact hRead b hb

/-
  A script that was read is read back from what is written
  for it. The blocks that were read come again in order, with
  the same keywords, names and fields, and no others. Only
  what has no name and should have one is reported, once.
-/
theorem parse_render
    (r : Registry)
    (source : String)
    (hPlain : r.Plain)
    (hFields : r.HasIdentFields)
    (hNames :
      ∀ b ∈ (parse r source).parsedBlocks,
        ∀ name ∈ b.name, LexesAsIdent name)
    (hLines :
      ∀ b ∈ (parse r source).failedBlocks,
        ∀ name ∈ b.name, '\n' ∉ name.toList) :
    (∀ b ∈ (parse r (parse r source).render).blocks,
      b.isFailed = false)
    ∧ (parse r (parse r source).render).blocks.map Block.content
        = (parse r source).parsedBlocks.map Block.content
    ∧ List.Forall₂
        (Block.MissesName
          (tokenize (parse r source).render).1)
        ((parse r source).parsedBlocks.filter r.lacksName)
        (parse r (parse r source).render).diagnostics := by
  rcases parse_written (s := parse r source) hPlain
    (fun b hb =>
      isWritable_of_parse hPlain hFields hNames hLines hb)
    (fun b hb => (origin_of_parse hPlain.keepsHeaders hb).2) with
    ⟨hSame, hReports⟩
  refine ⟨isFailed_of_content hSame ?_, hSame, hReports⟩
  intro b hb
  simpa using (List.mem_filter.mp hb).2

/- Without quotes in a script, its names are identifiers. -/
theorem ident_of_unquoted
    {r : Registry}
    {source : String}
    {b : Block}
    (hKeeps : r.KeepsHeaders)
    (hUnquoted : '"' ∉ source.toList)
    (hb : b ∈ (parse r source).blocks) :
    ∀ name ∈ b.name, LexesAsIdent name := by
  rcases origin_of_parse hKeeps hb with ⟨hFrom, -⟩
  intro name hName
  rcases hFrom.name name hName with ⟨t, ht, hWord, rfl⟩
  have hKind : t.kind = .ident ∨ t.kind = .str := by
    simpa [Token.isWord] using hWord
  rcases hKind with hIdent | hString
  · exact lexesAsIdent_iff.mpr (isIdent_of_token ht hIdent)
  · exact absurd (quote_of_token ht hString) hUnquoted

/-
  A block with no name, one that fails and one that repeats a
  field.
-/
def sample : String :=
  "tech \x7b \x7d tech a \x7b b \x7d "
    ++ "alienteam c \x7b equipment \x7b d e \x7d "
    ++ "equipment \x7b \x7d \x7d"

theorem parse_render_standard :
    Registry.standard.Plain
      ∧ (parse .standard
            (parse .standard sample).render).blocks.map
              Block.content
          = (parse .standard sample).parsedBlocks.map
              Block.content
      ∧ List.Forall₂
          (Block.MissesName
            (tokenize (parse .standard sample).render).1)
          ((parse .standard sample).parsedBlocks.filter
            Registry.standard.lacksName)
          (parse .standard
            (parse .standard sample).render).diagnostics := by
  have hPlain : Registry.standard.Plain := by decide
  have hUnquoted : '"' ∉ sample.toList := by decide
  refine ⟨hPlain, ?_⟩
  apply (parse_render .standard sample hPlain
    Registry.hasIdentFields_standard _ _).2
  · intro b hb
    exact ident_of_unquoted hPlain.keepsHeaders hUnquoted
      (List.mem_filter.mp hb).1
  · intro b hb name hName
    have hIdent :=
      ident_of_unquoted hPlain.keepsHeaders hUnquoted
        (List.mem_filter.mp hb).1
        name hName
    exact Word.feed_not_mem (lexesAsIdent_iff.mp hIdent)

end Script
end BlockScript
