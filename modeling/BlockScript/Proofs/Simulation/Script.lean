import BlockScript.Proofs.Simulation.Body

/-
  This file shows that two runs in step read the items of a
  script alike, whatever their registries, as long as these
  give the keywords of the script kinds that agree.

  Key definitions include:
    * `Simulation.Registries`

  Key theorems include:
    * `Simulation.readKind`
    * `Simulation.readItem`
    * `Simulation.readItems`
    * `Simulation.readItems_total`
-/

namespace BlockScript

------------------------------------------------------------
-- Scripts, Step by Step
------------------------------------------------------------

theorem Cursor.passStray_eq
    (c : Cursor) :
    c.passStray
      = match c.peek with
        | (none, c') => c'
        | (some t, c') =>
            match t.kind with
            | .ident => c'
            | .lBrace => c'.passGroup .openGroup
            | _ => c'.next.2.passStray := by
  rw [passStray]
  split
  · simp_all
  · rename_i t d hPeek
    cases hKind : t.kind <;> simp only [hPeek, hKind]

namespace Registry

theorem readItems_of_none
    {c d : Cursor}
    (r : Registry)
    (blocks : List Block)
    (hNext : c.next = (none, d)) :
    r.readItems blocks c = (blocks.reverse, d) := by
  rw [readItems]
  split <;> simp_all

theorem readItems_of_some
    {c d : Cursor}
    {t : Token}
    (r : Registry)
    (blocks : List Block)
    (hNext : c.next = (some t, d)) :
    r.readItems blocks c
      = r.readItems
          ((r.readItem t d).1.toList ++ blocks)
          (r.readItem t d).2 := by
  rw [readItems]
  split <;> simp_all

/- Reading all items moves the cursor by its operations. -/
theorem reaches_readItems
    (r : Registry)
    (blocks : List Block)
    (c : Cursor) :
    c.Reaches (r.readItems blocks c).2 := by
  fun_induction readItems r blocks c with
  | case1 blocks c d hNext => exact .of_next hNext
  | case2 blocks c t d hNext item ih =>
      have hTaken : c.Reaches d := .of_next hNext
      exact (hTaken.trans (reaches_readItem r t d)).trans ih

/- Reading all items goes on until no token is left. -/
theorem readItems_ended
    (r : Registry)
    (blocks : List Block)
    (c : Cursor) :
    ∃ d,
      c.Reaches d
        ∧ d.next = (none, (r.readItems blocks c).2) := by
  fun_induction readItems r blocks c with
  | case1 blocks c d hNext => exact ⟨c, .refl, hNext⟩
  | case2 blocks c t d hNext item ih =>
      obtain ⟨e, hReaches, hEnd⟩ := ih
      refine ⟨e, ?_, hEnd⟩
      have hFirst : c.Reaches c.next.2 := .next .refl
      rw [hNext] at hFirst
      exact (hFirst.trans (reaches_readItem r t d)).trans
        hReaches

end Registry

------------------------------------------------------------
-- Blocks in Two Parts
------------------------------------------------------------

namespace Registry

/- The name of a block, for kinds that have one. -/
def readNamed
    (kind : BlockKind)
    (keyword : String)
    (c : Cursor) : Option String × Cursor :=
  if kind.named then
    readName keyword c
  else
    (none, c)

/- Read what follows the keyword and the name of a block. -/
def readBraced
    (kind : BlockKind)
    (keyword : Token)
    (name : Option String)
    (c : Cursor) : Block × Cursor :=
  match c.eat .lBrace with
  | (some _, c) =>
      (headerAt keyword name c).readBlock kind.body c
  | (none, c) =>
      let (found, c) := c.peek
      let c :=
        c.reportNear
          (.ofProblem (.missingBody keyword.text found)) found
      ((headerAt keyword name c).close .failed c, c)

theorem readKind_eq
    (kind : BlockKind)
    (keyword : Token)
    (c : Cursor) :
    readKind kind keyword c
      = readBraced kind keyword
          (readNamed kind keyword.text c).1
          (readNamed kind keyword.text c).2 :=
  rfl

theorem reaches_readBraced
    (kind : BlockKind)
    (keyword : Token)
    (name : Option String)
    (c : Cursor) :
    c.Reaches (readBraced kind keyword name c).2 := by
  have hEat := Cursor.reaches_eat c .lBrace
  unfold readBraced
  simp only
  split
  · rename_i t d hBrace
    rw [hBrace] at hEat
    exact hEat.trans (Header.reaches_readBlock _ _ d)
  · rename_i d hBrace
    rw [hBrace] at hEat
    exact hEat.peek.trans (Cursor.reaches_reportNear _ _ _)

end Registry

namespace Simulation

variable {S : Simulation}
variable {c c' : Cursor}
variable {r r' : Registry}
variable {outcome : Outcome → Outcome → Prop}

------------------------------------------------------------
-- Registries
------------------------------------------------------------

/- Kinds whose blocks two runs read alike. -/
structure SameKind
    (S : Simulation)
    (outcome : Outcome → Outcome → Prop)
    (k k' : BlockKind) : Prop where
  named_eq : k'.named = k.named
  body : S.Bodies outcome k.body k'.body

/-
  Registries that give related words kinds that agree. Where
  the left run ends, the right one has a keyword of its own.
-/
structure Registries
    (S : Simulation)
    (outcome : Outcome → Outcome → Prop)
    (r r' : Registry) : Prop where
  failed : outcome .failed .failed
  lookup :
    ∀ {t t' : Token},
      S.token t t' →
        t.kind = .ident →
          Option.Rel (S.SameKind outcome)
            (r.lookup t.text) (r'.lookup t.text)
  endsAtWords : S.EndsAtWords
  keyword :
    ∀ {c c' : Cursor} {t : Token},
      S.ended c c' →
        c'.peek.1 = some t → r'.contains t.text = true

/- Registries that agree hold the same words. -/
theorem Registries.contains_eq
    {t t' : Token}
    (hRegistries : S.Registries outcome r r')
    (hToken : S.token t t')
    (hKind : t.kind = .ident) :
    r'.contains t.text = r.contains t.text := by
  have hLookup := hRegistries.lookup hToken hKind
  unfold Registry.contains
  generalize r.lookup t.text = k at hLookup ⊢
  generalize r'.lookup t.text = k' at hLookup ⊢
  cases hLookup <;> rfl

------------------------------------------------------------
-- Passing Over
------------------------------------------------------------

theorem passGroup
    {problem : Problem}
    (hProblem : problem.kind.isLexical = false)
    (hEnds : S.EndsAtWords)
    (hCursor : S.cursor c c') :
    S.After (c.passGroup problem) (c'.passGroup problem) := by
  have hEats := eatBrace hEnds hCursor
  unfold Cursor.passGroup Cursor.skipGroup
  generalize c.eat .lBrace = x at hEats ⊢
  generalize c'.eat .lBrace = x' at hEats ⊢
  cases hEats with
  | both hPositive hCursor =>
      rename_i t t' d d'
      have hSkips := skipToClose d.depth hCursor
      simp only [S.depth_eq hCursor]
      generalize d.skipToClose d.depth = y at hSkips ⊢
      generalize d'.skipToClose d.depth = y' at hSkips ⊢
      cases hSkips with
      | both hCursor =>
          rename_i b e e'
          cases b with
          | true => exact .inStep hCursor
          | false =>
              exact .inStep (S.reportAtEnd _ hProblem hCursor)
      | left hLost => exact .lost (hLost _)
  | neither hCursor => exact .inStep hCursor
  | left _ hEnded => exact .ended hEnded

theorem passStray
    (hEnds : S.EndsAtWords)
    (hCursor : S.cursor c c') :
    S.After c.passStray c'.passStray := by
  fun_induction Cursor.passStray c generalizing c' with
  | case1 c d hPeek =>
      have hPeeks := peeks hCursor
      rw [hPeek] at hPeeks
      rw [Cursor.passStray_eq]
      have hAgain := Cursor.peek_peek c'
      generalize c'.peek = p' at hPeeks hAgain ⊢
      cases hPeeks with
      | neither hCursor => exact .inStep hCursor
      | left hEnded =>
          rename_i found
          cases found with
          | none => exact .ended hEnded
          | some t =>
              have hWord := (hEnds _ _ hEnded).2 t (by rw [hAgain])
              simp only [hWord]
              exact .ended hEnded
  | case2 c t d hPeek hKind =>
      have hPeeks := peeks hCursor
      rw [hPeek] at hPeeks
      rw [Cursor.passStray_eq]
      generalize c'.peek = p' at hPeeks ⊢
      cases hPeeks with
      | both hToken hCursor hNext =>
          simp only [S.kind_eq hToken, hKind]
          exact .inStep hCursor
  | case3 c t d hPeek hKind =>
      have hPeeks := peeks hCursor
      rw [hPeek] at hPeeks
      rw [Cursor.passStray_eq]
      generalize c'.peek = p' at hPeeks ⊢
      cases hPeeks with
      | both hToken hCursor hNext =>
          simp only [S.kind_eq hToken, hKind]
          exact passGroup rfl hEnds hCursor
  | case4 c t d hPeek hIdent hBrace ih =>
      have hPeeks := peeks hCursor
      rw [hPeek] at hPeeks
      rw [Cursor.passStray_eq c']
      generalize c'.peek = p' at hPeeks ⊢
      cases hPeeks with
      | both hToken hCursor hNext =>
          simp only [S.kind_eq hToken]
          exact ih hNext

theorem isUnknownName_eq
    {t t' : Token}
    (hRegistries : S.Registries outcome r r')
    (hToken : S.token t t') :
    r'.isUnknownName t' = r.isUnknownName t := by
  unfold Registry.isUnknownName
  rw [S.kind_eq hToken, S.text_eq hToken]
  split
  · rename_i hKind
    rw [hRegistries.contains_eq hToken hKind]
  · rfl
  · rfl
  · rfl

theorem passUnknown
    (hRegistries : S.Registries outcome r r')
    (hCursor : S.cursor c c') :
    S.After (r.passUnknown c) (r'.passUnknown c') := by
  have hPeeks := peeks hCursor
  have hAgain := Cursor.peek_peek c'
  have hEnds := hRegistries.endsAtWords
  unfold Registry.passUnknown
  generalize c.peek = p at hPeeks ⊢
  generalize c'.peek = p' at hPeeks hAgain ⊢
  cases hPeeks with
  | both hToken hCursor hNext =>
      simp only [isUnknownName_eq hRegistries hToken]
      split
      · exact passGroup rfl hEnds hNext
      · exact passGroup rfl hEnds hCursor
  | neither hCursor => exact .inStep hCursor
  | left hEnded =>
      rename_i d d' found
      cases found with
      | none => exact .ended hEnded
      | some t =>
          have hPeek : d'.peek.1 = some t := by rw [hAgain]
          have hWord := (hEnds _ _ hEnded).2 t hPeek
          have hKeyword := hRegistries.keyword hEnded hPeek
          have hUnknown : r'.isUnknownName t = false := by
            simp [Registry.isUnknownName, hWord, hKeyword]
          -- A keyword is not taken for a name or a group.
          have hPass : d'.passGroup .openUnknownBlock = d' := by
            unfold Cursor.passGroup Cursor.skipGroup
            rw [Cursor.eat_eq, hAgain]
            simp [hWord]
          simp only [hUnknown, Bool.false_eq_true, if_false, hPass]
          exact .ended hEnded

------------------------------------------------------------
-- Problems
------------------------------------------------------------

/- Related tokens are stray in the same words. -/
theorem strayToken_eq
    {t t' : Token}
    (hToken : S.token t t') :
    Diagnostic.ofProblem (.strayToken t')
      = .ofProblem (.strayToken t) := by
  unfold Diagnostic.ofProblem Problem.message
  simp only [describe_eq hToken]
  rfl

theorem missingName_eq
    {t t' : Token}
    (keyword : String)
    (hToken : S.token t t') :
    Diagnostic.ofProblem (.missingName keyword (some t'))
      = .ofProblem (.missingName keyword (some t)) := by
  unfold Diagnostic.ofProblem Problem.message Problem.foundText
  simp only [describe_eq hToken]
  rfl

theorem missingBody_eq
    {t t' : Token}
    (keyword : String)
    (hToken : S.token t t') :
    Diagnostic.ofProblem (.missingBody keyword (some t'))
      = .ofProblem (.missingBody keyword (some t)) := by
  unfold Diagnostic.ofProblem Problem.message Problem.foundText
  simp only [describe_eq hToken]
  rfl

------------------------------------------------------------
-- Items of a Script
------------------------------------------------------------

theorem passStrayFrom
    {t t' : Token}
    (hEnds : S.EndsAtWords)
    (hToken : S.token t t')
    (hCursor : S.cursor c c') :
    S.After (Registry.passStrayFrom t c)
      (Registry.passStrayFrom t' c') := by
  have hReport :=
    S.reportAt (.ofProblem (.strayToken t)) rfl hCursor hToken
  unfold Registry.passStrayFrom
  simp only [S.kind_eq hToken, strayToken_eq hToken]
  generalize c.reportAt (.ofProblem (.strayToken t)) t = d
    at hReport ⊢
  generalize c'.reportAt (.ofProblem (.strayToken t)) t' = d'
    at hReport ⊢
  split
  · have hSkips := skipToClose d.depth hReport
    simp only [S.depth_eq hReport]
    generalize d.skipToClose d.depth = y at hSkips ⊢
    generalize d'.skipToClose d.depth = y' at hSkips ⊢
    cases hSkips with
    | both hCursor =>
        rename_i b e e'
        cases b with
        | true => exact .inStep hCursor
        | false => exact .inStep (S.reportAtEnd _ rfl hCursor)
    | left hLost => exact .lost (hLost _)
  · exact passStray hEnds hReport

/- Names that two runs read, unless the left is lost. -/
inductive Names (S : Simulation) :
    Option String × Cursor → Option String × Cursor → Prop where
  | both
      {name : Option String}
      {c c' : Cursor}
      (hCursor : S.cursor c c') :
      Names S (name, c) (name, c')
  | lost
      {x x' : Option String × Cursor}
      (hLost : S.lost x.2) :
      Names S x x'

theorem readName
    (keyword : String)
    (hCursor : S.cursor c c') :
    S.Names (Registry.readName keyword c)
      (Registry.readName keyword c') := by
  have hPeeks := peeks hCursor
  unfold Registry.readName
  generalize c.peek = p at hPeeks ⊢
  generalize c'.peek = p' at hPeeks ⊢
  cases hPeeks with
  | both hToken hCursor hNext =>
      simp only [S.kind_eq hToken, S.text_eq hToken,
        isWord_eq hToken, missingName_eq keyword hToken]
      split
      · exact .both hNext
      · split
        · exact .both (S.reportAt _ rfl hCursor hToken)
        · exact .both (S.reportAt _ rfl hNext hToken)
  | neither hCursor => exact .both (S.reportAtEnd _ rfl hCursor)
  | left hEnded => exact .lost (S.lost_of_ended _ hEnded)

theorem readNamed
    {k k' : BlockKind}
    (keyword : String)
    (hNamed : k'.named = k.named)
    (hCursor : S.cursor c c') :
    S.Names (Registry.readNamed k keyword c)
      (Registry.readNamed k' keyword c') := by
  unfold Registry.readNamed
  rw [hNamed]
  split
  · exact readName keyword hCursor
  · exact .both hCursor

/- Headers up to cursors in step are related. -/
theorem headerAt
    {t t' : Token}
    (name : Option String)
    (hToken : S.token t t')
    (hCursor : S.cursor c c') :
    S.SameHeader (Registry.headerAt t name c)
      (Registry.headerAt t' name c') :=
  ⟨S.text_eq hToken, rfl, S.start hToken, S.stop hCursor⟩

theorem readBraced
    {k k' : BlockKind}
    {t t' : Token}
    (name : Option String)
    (hEnds : S.EndsAtWords)
    (hFailed : outcome .failed .failed)
    (hBodies : S.Bodies outcome k.body k'.body)
    (hToken : S.token t t')
    (hCursor : S.cursor c c') :
    S.Closes outcome (Registry.readBraced k t name c)
      (Registry.readBraced k' t' name c') := by
  have hEats := eatBrace hEnds hCursor
  have hText := S.text_eq hToken
  unfold Registry.readBraced
  simp only [hText]
  generalize c.eat .lBrace = x at hEats ⊢
  generalize c'.eat .lBrace = x' at hEats ⊢
  cases hEats with
  | both hPositive hCursor =>
      exact hBodies (headerAt name hToken hCursor) hPositive
        hCursor
  | neither hCursor =>
      rename_i d d'
      have hPeeks := peeks hCursor
      simp only
      generalize d.peek = p at hPeeks ⊢
      generalize d'.peek = p' at hPeeks ⊢
      cases hPeeks with
      | both hFound hCursor hNext =>
          simp only [Cursor.reportNear,
            missingBody_eq t.text hFound]
          refine close (headerAt name hToken ?_) hFailed ?_ <;>
            exact S.reportAt _ rfl hCursor hFound
      | neither hCursor =>
          refine close (headerAt name hToken ?_) hFailed ?_ <;>
            exact S.reportAtEnd _ rfl hCursor
      | left hEnded => exact .lost (S.lost_of_ended _ hEnded)
  | left hPeek hEnded =>
      rename_i d d'
      refine .lost ?_
      simp only [hPeek]
      exact S.lost_of_ended _ hEnded

theorem readKind
    {k k' : BlockKind}
    {t t' : Token}
    (hEnds : S.EndsAtWords)
    (hFailed : outcome .failed .failed)
    (hKind : S.SameKind outcome k k')
    (hToken : S.token t t')
    (hCursor : S.cursor c c') :
    S.Closes outcome (Registry.readKind k t c)
      (Registry.readKind k' t' c') := by
  have hNames := readNamed t.text hKind.named_eq hCursor
  rw [Registry.readKind_eq, Registry.readKind_eq,
    S.text_eq hToken]
  generalize Registry.readNamed k t.text c = x at hNames ⊢
  generalize Registry.readNamed k' t.text c' = x' at hNames ⊢
  cases hNames with
  | both hCursor =>
      exact readBraced _ hEnds hFailed hKind.body hToken hCursor
  | lost hLost =>
      exact .lost
        (S.lost_mono (Registry.reaches_readBraced _ _ _ _) hLost)

/-
  What two runs made of an item of a script, unless the left
  is lost.
-/
inductive Items
    (S : Simulation)
    (outcome : Outcome → Outcome → Prop) :
    Option Block × Cursor → Option Block × Cursor → Prop where
  | block
      {b b' : Block}
      {c c' : Cursor}
      (hBlock : S.SameBlock outcome b b')
      (hCursor : S.cursor c c') :
      Items S outcome (some b, c) (some b', c')
  | passed
      {c c' : Cursor}
      (hAfter : S.After c c') :
      Items S outcome (none, c) (none, c')
  | lost
      {x x' : Option Block × Cursor}
      (hLost : S.lost x.2) :
      Items S outcome x x'

theorem readItem
    {t t' : Token}
    (hRegistries : S.Registries outcome r r')
    (hToken : S.token t t')
    (hCursor : S.cursor c c') :
    S.Items outcome (r.readItem t c) (r'.readItem t' c') := by
  unfold Registry.readItem
  rw [S.kind_eq hToken, S.text_eq hToken]
  split
  · rename_i hIdent
    have hLookup := hRegistries.lookup hToken hIdent
    generalize r.lookup t.text = k at hLookup ⊢
    generalize r'.lookup t.text = k' at hLookup ⊢
    cases hLookup with
    | some hKind =>
        rename_i k k'
        have hCloses :=
          readKind hRegistries.endsAtWords hRegistries.failed
            hKind hToken hCursor
        simp only
        generalize Registry.readKind k t c = x at hCloses ⊢
        generalize Registry.readKind k' t' c' = x' at hCloses ⊢
        cases hCloses with
        | both hBlock hCursor => exact .block hBlock hCursor
        | lost hLost => exact .lost hLost
    | none =>
        exact .passed
          (passUnknown hRegistries
            (S.reportAt _ rfl hCursor hToken))
  · exact .passed
      (passStrayFrom hRegistries.endsAtWords hToken hCursor)

------------------------------------------------------------
-- All Items
------------------------------------------------------------

/-
  Where two runs stand when the left one has read all of its
  items. The right one has read related blocks, `done` last
  first, and may go on from `d'`.
-/
structure Finishes
    (S : Simulation)
    (outcome : Outcome → Outcome → Prop)
    (r' : Registry)
    (x x' : List Block × Cursor)
    (done : List Block)
    (d d' : Cursor) : Prop where
  next : d.next = (none, x.2)
  runs : S.cursor d d' ∨ S.ended d d'
  rest : x' = r'.readItems done d'
  blocks : List.Forall₂ (S.SameBlock outcome) x.1 done.reverse

theorem readItems
    {blocks blocks' : List Block}
    (hRegistries : S.Registries outcome r r')
    (hBlocks :
      List.Forall₂ (S.SameBlock outcome) blocks blocks')
    (hRuns : S.cursor c c' ∨ S.ended c c') :
    S.lost (r.readItems blocks c).2
    ∨ ∃ done d d',
      S.Finishes outcome r'
        (r.readItems blocks c) (r'.readItems blocks' c')
        done d d' := by
  fun_induction Registry.readItems r blocks c
    generalizing blocks' c' with
  | case1 blocks c d hNext =>
      refine .inr ⟨blocks', c, c', hNext, hRuns, rfl, ?_⟩
      exact List.forall₂_reverse_iff.mpr hBlocks
  | case2 blocks c t d hNext item =>
      rename_i ih
      rcases hRuns with hCursor | hEnded
      · have hStep := S.next hCursor
        rw [hNext] at hStep
        rcases hNext' : c'.next with ⟨found, d'⟩
        rw [hNext'] at hStep
        cases hStep with
        | both hToken hCursor =>
            rename_i t'
            rw [Registry.readItems_of_some r' blocks' hNext']
            have hItem : S.Items outcome item (r'.readItem t' d') :=
              readItem hRegistries hToken hCursor
            clear_value item
            generalize r'.readItem t' d' = item' at hItem ⊢
            cases hItem with
            | block hBlock hCursor =>
                exact ih (.cons hBlock hBlocks) (.inl hCursor)
            | passed hAfter =>
                rcases hAfter with hCursor | hEnded | hLost
                · exact ih hBlocks (.inl hCursor)
                · exact ih hBlocks (.inr hEnded)
                · exact .inl
                    (S.lost_mono (Registry.reaches_readItems _ _ _) hLost)
            | lost hLost =>
                exact .inl
                  (S.lost_mono (Registry.reaches_readItems _ _ _) hLost)
      · have hNone := S.ended_next hEnded
        simp [hNext] at hNone

/-
  Runs that neither end apart nor get lost read all items to
  related blocks.
-/
theorem readItems_total
    {blocks blocks' : List Block}
    (hRegistries : S.Registries outcome r r')
    (hEnded : ∀ c c' : Cursor, ¬ S.ended c c')
    (hLost : ∀ c : Cursor, ¬ S.lost c)
    (hBlocks :
      List.Forall₂ (S.SameBlock outcome) blocks blocks')
    (hCursor : S.cursor c c') :
    List.Forall₂ (S.SameBlock outcome)
        (r.readItems blocks c).1 (r'.readItems blocks' c').1
      ∧ S.cursor (r.readItems blocks c).2
          (r'.readItems blocks' c').2 := by
  rcases readItems hRegistries hBlocks (.inl hCursor) with
    hNow | ⟨done, d, d', hFinishes⟩
  · exact absurd hNow (hLost _)
  · rcases hFinishes.runs with hRuns | hRuns
    · have hStep := S.next hRuns
      rw [hFinishes.next] at hStep
      rcases hNext' : d'.next with ⟨found, e'⟩
      rw [hNext'] at hStep
      rw [hFinishes.rest]
      cases hStep with
      | neither hCursor =>
          rw [Registry.readItems_of_none r' done hNext']
          exact ⟨hFinishes.blocks, hCursor⟩
      | left hNow =>
          exact absurd (hNow (.ofProblem .openGroup)) (hLost _)
    · exact absurd hRuns (hEnded _ _)

end Simulation
end BlockScript
