import BlockScript.Proofs.Closing
import BlockScript.Proofs.Simulation.Script
import BlockScript.Registry.Standard

/-
  This file shows that the bodies of blocks have no part in
  the structure of a script: with every body read as anything
  up to its closing brace, there are the same blocks in the
  same places, and the same is reported, apart from what is
  malformed inside bodies.

  Key definitions include:
    * `Registry.Plain`
    * `Registry.bare`
    * `Script.SameStructure`

  Key theorems include:
    * `Simulation.bodies_bare`
    * `Script.sameStructure_bare`
    * `Script.structure_of_bodies`
-/

namespace BlockScript

------------------------------------------------------------
-- Registries without Bodies
------------------------------------------------------------

namespace Registry

/- Bodies are tables or have no structure. -/
def Plain (r : Registry) : Prop :=
  ∀ k ∈ r.table.kinds, k.body.isCustom = false

instance
    (r : Registry) :
    Decidable r.Plain :=
  inferInstanceAs
    (Decidable (∀ k ∈ r.table.kinds, k.body.isCustom = false))

/- The same kinds, with bodies that have no structure. -/
def bare (r : Registry) : Registry :=
  { r with
    table :=
      r.table.map fun k => { k with body := .unstructured } }

/- A keyword has a kind with or without its body. -/
theorem lookup_bare
    (r : Registry)
    (keyword : String) :
    r.bare.lookup keyword
      = (r.lookup keyword).map fun k =>
          { k with body := .unstructured } :=
  r.table.get?_map _ keyword

end Registry

------------------------------------------------------------
-- Reports Apart from Bodies
------------------------------------------------------------

namespace Diagnostics

/- What is not about the inside of a body. -/
def outsideBodies (ds : List Diagnostic) : List Diagnostic :=
  ds.filter (·.kind != .malformedBody)

theorem outsideBodies_append
    (ds es : List Diagnostic) :
    outsideBodies (ds ++ es)
      = outsideBodies ds ++ outsideBodies es :=
  List.filter_append ..

end Diagnostics

/-
  Cursors that differ only in what was reported about the
  inside of bodies.
-/
structure Cursor.SameOutside (c c' : Cursor) : Prop where
  rest : c' = { c with diagnostics := c'.diagnostics }
  diagnostics :
    Diagnostics.outsideBodies c'.diagnostics.toList
      = Diagnostics.outsideBodies c.diagnostics.toList

namespace Cursor.SameOutside

variable {c c' c'' : Cursor}

theorem refl
    (c : Cursor) :
    SameOutside c c :=
  ⟨rfl, rfl⟩

theorem trans
    (hLeft : SameOutside c c')
    (hRight : SameOutside c' c'') :
    SameOutside c c'' := by
  refine ⟨?_, hRight.diagnostics.trans hLeft.diagnostics⟩
  rw [hRight.rest, hLeft.rest]

/- Both may report the same. -/
theorem report
    (d : Diagnostic)
    (hSame : SameOutside c c') :
    SameOutside (c.report d) (c'.report d) := by
  obtain ⟨hRest, hDiagnostics⟩ := hSame
  constructor
  · rw [hRest]
    rfl
  · simp only [Cursor.report, Array.toList_push,
      Diagnostics.outsideBodies_append, hDiagnostics]

theorem reportAtEnd
    (d : Diagnostic)
    (hSame : SameOutside c c') :
    SameOutside (c.reportAtEnd d) (c'.reportAtEnd d) := by
  have hCheck : SameOutside c.checkEnd c'.checkEnd := by
    refine ⟨?_, hSame.diagnostics⟩
    rw [hSame.rest]
    rfl
  have hReport := hCheck.report
  unfold Cursor.reportAtEnd
  rw [hSame.rest] at hReport ⊢
  exact hReport _

/- One may report a malformed body. -/
theorem report_left
    {d : Diagnostic}
    (hKind : d.kind = .malformedBody)
    (hSame : SameOutside c c') :
    SameOutside (c.report d) c' := by
  obtain ⟨hRest, hDiagnostics⟩ := hSame
  constructor
  · rw [hRest]
    rfl
  · simp only [Cursor.report, Array.toList_push,
      Diagnostics.outsideBodies_append, hDiagnostics]
    simp [Diagnostics.outsideBodies, hKind]

/- Both pull the same token and the same problems. -/
theorem pull
    (hSame : SameOutside c c') :
    InStep Eq SameOutside (fun _ _ => False)
      c.pull c'.pull := by
  obtain ⟨hRest, hDiagnostics⟩ := hSame
  generalize c'.diagnostics = x at hRest hDiagnostics
  subst hRest
  rcases hNext : c.source.next with ⟨found, source⟩
  have hAfter :
      Diagnostics.outsideBodies (x ++ source.drain.1).toList
        = Diagnostics.outsideBodies
            (c.diagnostics ++ source.drain.1).toList := by
    simp only [Array.toList_appendList,
      Diagnostics.outsideBodies_append, hDiagnostics]
  simp only [Cursor.pull, hNext]
  cases found with
  | none => exact .neither ⟨rfl, hAfter⟩
  | some t => exact .both rfl ⟨rfl, hAfter⟩

theorem peeked
    (hSame : SameOutside c c') :
    Option.Rel Eq c.peeked c'.peeked := by
  rw [hSame.rest]
  cases c.peeked with
  | none => exact .none
  | some t => exact .some rfl

theorem keep
    {t t' : Token}
    (hSame : SameOutside c c')
    (hToken : t = t') :
    SameOutside { c with peeked := some t }
      { c' with peeked := some t' } := by
  refine ⟨?_, hSame.diagnostics⟩
  rw [hSame.rest, hToken]

theorem take
    {t t' : Token}
    (hSame : SameOutside c c')
    (hToken : t = t') :
    SameOutside
      (Cursor.consume { c with peeked := none } t)
      (Cursor.consume { c' with peeked := none } t') := by
  refine ⟨?_, hSame.diagnostics⟩
  rw [hSame.rest, hToken]
  rfl

end Cursor.SameOutside

/- Runs that differ only in reports about bodies. -/
def Simulation.outside : Simulation where
  toMatching := .same
  toEnding := .together
  cursor := Cursor.SameOutside
  depth_eq h := by rw [h.rest]
  stop h := by rw [h.rest]; rfl
  peek h := .peek h h.peeked h.pull .keep
  next h := .next h h.peeked h.pull .take
  reportAt d _ h hToken := by
    subst hToken
    exact h.report _
  reportAtEnd d _ h := h.reportAtEnd d

------------------------------------------------------------
-- Blocks without Bodies
------------------------------------------------------------

/- A skip that succeeds has closed the block. -/
theorem Cursor.closed_of_skipToClose
    {c d : Cursor}
    {bodyDepth : Nat}
    (hSkip : c.skipToClose bodyDepth = (true, d)) :
    bodyDepth = 0 ∨ d.depth < bodyDepth := by
  fun_induction skipToClose c bodyDepth with
  | case1 c hClosed =>
      simp only [Prod.mk.injEq, true_and] at hSkip
      rwa [← hSkip]
  | case2 => simp at hSkip
  | case3 c hOpen t e hNext ih => exact ih hSkip

/- A block without structure ends where its brace closes. -/
theorem Header.readBlock_unstructured
    (h : Header)
    (c : Cursor) :
    h.readBlock .unstructured c
      = match c.skipToClose c.depth with
        | (true, d) => (h.close (.parsed []) d, d)
        | (false, d) => h.closeAtEnd d := by
  simp only [readBlock, Body.header, Body.read]
  rcases hSkip : c.skipToClose c.depth with ⟨_ | _, d⟩
  · rfl
  · have hClosed := Cursor.closed_of_skipToClose hSkip
    simp only [finish, Cursor.skipToClose_of_closed hClosed]

/- A body without structure is failed only with others. -/
def Outcome.FailsWith (o o' : Outcome) : Prop :=
  o' = .failed → o = .failed

namespace Simulation

/- Runs of this kind skip to the same brace. -/
theorem outside_skipToClose
    {c c' : Cursor}
    (bodyDepth : Nat)
    (hSame : c.SameOutside c') :
    (c'.skipToClose bodyDepth).1 = (c.skipToClose bodyDepth).1
      ∧ (c.skipToClose bodyDepth).2.SameOutside
          (c'.skipToClose bodyDepth).2 := by
  have hSkips := skipToClose (S := outside) bodyDepth hSame
  generalize c.skipToClose bodyDepth = x at hSkips ⊢
  generalize c'.skipToClose bodyDepth = x' at hSkips ⊢
  cases hSkips with
  | both hSame => exact ⟨rfl, hSame⟩
  | left hLost => exact (hLost (.ofProblem .openGroup)).elim

/-
  Where a body was left does not matter, once the block is
  skipped to its end.
-/
theorem closes_of_skip
    {h h' : Header}
    {o : Outcome}
    {c d c' : Cursor}
    (bodyDepth : Nat)
    (hHeader : outside.SameHeader h h')
    (hSkip :
      (c.skipToClose bodyDepth).1 = (d.skipToClose bodyDepth).1
        ∧ (d.skipToClose bodyDepth).2.SameOutside
            (c.skipToClose bodyDepth).2)
    (hSame : c.SameOutside c') :
    outside.Closes Outcome.FailsWith
      (match d.skipToClose bodyDepth with
        | (true, d) => (h.close o d, d)
        | (false, d) => h.closeAtEnd d)
      (match c'.skipToClose bodyDepth with
        | (true, d) => (h'.close (.parsed []) d, d)
        | (false, d) => h'.closeAtEnd d) := by
  obtain ⟨hFound, hAfter⟩ := hSkip
  obtain ⟨hFound', hAfter'⟩ := outside_skipToClose bodyDepth hSame
  have hBoth := hAfter.trans hAfter'
  have hEq := hFound'.trans hFound
  generalize d.skipToClose bodyDepth = x at hEq hBoth ⊢
  generalize c'.skipToClose bodyDepth = x' at hEq hBoth ⊢
  rcases x with ⟨_ | _, e⟩ <;> rcases x' with ⟨_ | _, e'⟩
  · exact closeAtEnd hHeader id hBoth
  · simp at hEq
  · simp at hEq
  · exact close hHeader (by simp [Outcome.FailsWith]) hBoth

/-
  A table ends where a body without structure does, whatever
  it makes of what it reads.
-/
theorem bodies_bare
    {body : Body}
    (hPlain : body.isCustom = false) :
    outside.Bodies Outcome.FailsWith body .unstructured := by
  intro h h' c c' hHeader hPositive hSame
  have hDepth := outside.depth_eq hSame
  rw [h'.readBlock_unstructured, hDepth]
  cases body with
  | unstructured =>
      rw [h.readBlock_unstructured]
      exact closes_of_skip c.depth hHeader ⟨rfl, .refl _⟩ hSame
  | table table =>
      have hStays := table.stays_readFields [] hPositive
      simp only [Header.readBlock, Body.header, Body.read]
      generalize table.readFields [] c = x at hStays ⊢
      cases hStays with
      | ok hSkip hAfter =>
          exact closes_of_skip c.depth hHeader
            (by rw [hSkip]; exact ⟨rfl, .refl _⟩) hSame
      | malformed hSkip =>
          rename_i cause t d
          -- The report about the body is not compared.
          have hReport :
              (h.reportMalformed cause (some t) d).SameOutside d :=
            Cursor.SameOutside.report_left rfl (.refl d)
          have hSkips := outside_skipToClose c.depth hReport
          rw [hSkip] at hSkips
          exact closes_of_skip c.depth hHeader hSkips hSame
      | eof hSkip =>
          obtain ⟨hFound, hAfter⟩ :=
            outside_skipToClose c.depth hSame
          rw [hSkip] at hFound hAfter
          generalize c'.skipToClose c.depth = x' at hFound hAfter ⊢
          rcases x' with ⟨_ | _, e'⟩
          · exact closeAtEnd hHeader id hAfter
          · simp at hFound
  | custom g => simp [Body.isCustom] at hPlain

/- A plain registry reads blocks as it does without bodies. -/
theorem registries_bare
    {r : Registry}
    (hPlain : r.Plain) :
    outside.Registries Outcome.FailsWith r r.bare where
  failed := id
  lookup := by
    intro t t' hToken _
    rw [r.lookup_bare]
    rcases hLookup : r.lookup t.text with _ | k
    · exact .none
    · have hMember := KindTable.mem_kinds_of_get? hLookup
      exact .some ⟨rfl, bodies_bare (hPlain k hMember)⟩
  endsAtWords _ _ h := h.elim
  keyword h := h.elim

end Simulation

------------------------------------------------------------
-- Structure of Scripts
------------------------------------------------------------

/- The frame of a block, without what is inside. -/
def Block.header (b : Block) : Header :=
  { keyword := b.keyword, name := b.name, span := b.span }

/-
  Scripts with the same blocks in the same places, and the
  same reports outside of bodies.
-/
structure Script.SameStructure (s s' : Script) : Prop where
  headers : s.blocks.map Block.header = s'.blocks.map Block.header
  diagnostics :
    Diagnostics.outsideBodies s.diagnostics
      = Diagnostics.outsideBodies s'.diagnostics

theorem Simulation.header_eq
    {b b' : Block}
    (hBlock : outside.SameBlock Outcome.FailsWith b b') :
    b.header = b'.header := by
  obtain ⟨hKeyword, hName, hStart, hStop, _⟩ := hBlock
  rcases b with ⟨keyword, name, ⟨start, stop⟩, o⟩
  rcases b' with ⟨keyword', name', ⟨start', stop'⟩, o'⟩
  simp only [Simulation.outside, Matching.same] at hStart hStop
  simp_all [Block.header]

namespace Script

/- Blocks are the same with and without their bodies. -/
theorem blocks_bare
    {r : Registry}
    (hPlain : r.Plain)
    (c : Cursor) :
    List.Forall₂
        (Simulation.outside.SameBlock Outcome.FailsWith)
        (ofCursor r c).blocks (ofCursor r.bare c).blocks
      ∧ Diagnostics.outsideBodies (ofCursor r c).diagnostics
          = Diagnostics.outsideBodies
              (ofCursor r.bare c).diagnostics := by
  obtain ⟨hBlocks, hSame⟩ :=
    Simulation.readItems_total
      (Simulation.registries_bare hPlain)
      (fun _ _ h => h) (fun _ h => h) .nil
      (Cursor.SameOutside.refl c)
  refine ⟨hBlocks, ?_⟩
  simp only [ofCursor, Cursor.finish, Array.toList_appendList,
    Diagnostics.outsideBodies_append, hSame.diagnostics]
  rw [hSame.rest]

theorem sameStructure_bare
    {r : Registry}
    (hPlain : r.Plain)
    (c : Cursor) :
    (ofCursor r c).SameStructure (ofCursor r.bare c) := by
  obtain ⟨hBlocks, hDiagnostics⟩ := blocks_bare hPlain c
  refine ⟨?_, hDiagnostics⟩
  generalize (ofCursor r c).blocks = bs at hBlocks ⊢
  generalize (ofCursor r.bare c).blocks = bs' at hBlocks ⊢
  induction hBlocks with
  | nil => rfl
  | cons hBlock _ ih =>
      rw [List.map_cons, List.map_cons, ih,
        Simulation.header_eq hBlock]

/-
  How bodies are read never changes the blocks of a script,
  nor what is reported outside of bodies.
-/
theorem structure_of_bodies
    (r : Registry)
    (hPlain : r.Plain) :
    (∀ source : String,
      (parse r source).SameStructure (parse r.bare source))
    ∧ ∀ tokens : List Token,
        (ofTokens r tokens).SameStructure
          (ofTokens r.bare tokens) :=
  ⟨fun _ => sameStructure_bare hPlain _,
    fun _ => sameStructure_bare hPlain _⟩

/- A list where a number should be does not leak. -/
theorem structure_of_bodies_standard :
    Registry.standard.Plain
      ∧ (parse .standard
            "tech a \x7b time \x7b b \x7d \x7d salary").SameStructure
          (parse Registry.standard.bare
            "tech a \x7b time \x7b b \x7d \x7d salary") :=
  ⟨by decide,
    (structure_of_bodies .standard (by decide)).1 _⟩

end Script
end BlockScript
