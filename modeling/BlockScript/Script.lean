import BlockScript.Block
import BlockScript.Registry

/-
  This file parses scripts. A script is a sequence of blocks
  `keyword name { body }`, the name only for kinds that have
  one. What cannot be a block is reported and passed over, so
  that parsing always reaches the end.

  Key definitions include:
    * `Script`
    * `Script.ofCursor`
    * `Script.parse`
    * `Script.ofTokens`
    * `Script.ofTokensChecked`
    * `Script.find?`
-/

namespace BlockScript

------------------------------------------------------------
-- Passing Over
------------------------------------------------------------

namespace Cursor

/- Pass over a group in braces, and report if input ends. -/
def passGroup
    (c : Cursor)
    (problem : Problem) : Cursor :=
  match c.skipGroup with
  | (true, c) => c
  | (false, c) => c.reportAtEnd (.ofProblem problem)

theorem reaches_passGroup
    (c : Cursor)
    (problem : Problem) :
    c.Reaches (c.passGroup problem) := by
  have hSkip := reaches_skipGroup c
  unfold passGroup
  split
  · rename_i c' h
    rwa [h] at hSkip
  · rename_i c' h
    rw [h] at hSkip
    exact hSkip.trans (reaches_reportAtEnd c' _)

/-
  Pass over tokens up to the next identifier, or up to and
  with the next group in braces.
-/
def passStray (c : Cursor) : Cursor :=
  match _ : c.peek with
  | (none, c') => c'
  | (some t, c') =>
      match t.kind with
      | .ident => c'
      | .lBrace => c'.passGroup .openGroup
      | _ => c'.next.2.passStray
termination_by c.size
decreasing_by
  rename_i h
  have hLe := size_peek_le c
  have hPeeked := peek_peeked c
  rw [h] at hLe hPeeked
  have hLt : c'.next.2.size < c'.size :=
    size_next_lt (by rw [next_of_peeked hPeeked]; rfl)
  exact Nat.lt_of_lt_of_le hLt hLe

theorem reaches_passStray
    (c : Cursor) :
    c.Reaches c.passStray := by
  fun_induction passStray c with
  | case1 c c' h => exact .of_peek h
  | case2 c t c' h hKind => exact .of_peek h
  | case3 c t c' h hKind =>
      exact (Reaches.of_peek h).trans (reaches_passGroup c' _)
  | case4 c t c' h _ _ ih =>
      exact (Reaches.of_peek h).next.trans ih

end Cursor

namespace Registry

------------------------------------------------------------
-- Items of a Script
------------------------------------------------------------

/-
  Read the name of a block. A token that is no name is
  reported and, unless it is a brace, taken.
-/
def readName
    (keyword : String)
    (c : Cursor) : Option String × Cursor :=
  match c.peek with
  | (none, c) =>
      (none,
        c.reportAtEnd (.ofProblem (.missingName keyword none)))
  | (some t, c) =>
      if t.isWord then
        (some t.text, c.next.2)
      else
        let problem := Problem.missingName keyword (some t)
        if t.kind = .lBrace ∨ t.kind = .rBrace then
          (none, c.reportAt (.ofProblem problem) t)
        else
          (none, c.next.2.reportAt (.ofProblem problem) t)

/- The header of a block up to the last token taken. -/
def headerAt
    (keyword : Token)
    (name : Option String)
    (c : Cursor) : Header :=
  { keyword := keyword.text,
    name,
    span :=
      { start := keyword.span.start, stop := c.lastSpan.stop } }

/- Read what follows the keyword of a block. -/
def readKind
    (kind : BlockKind)
    (keyword : Token)
    (c : Cursor) : Block × Cursor :=
  let (name, c) :=
    if kind.named then
      readName keyword.text c
    else
      (none, c)
  match c.eat .lBrace with
  | (some _, c) =>
      (headerAt keyword name c).readBlock kind.body c
  | (none, c) =>
      let (found, c) := c.peek
      let c :=
        c.reportNear
          (.ofProblem (.missingBody keyword.text found)) found
      ((headerAt keyword name c).close .failed c, c)

/-
  Whether a token is taken for the name of a block that has
  no kind. A keyword that has a kind is not.
-/
def isUnknownName
    (r : Registry)
    (t : Token) : Bool :=
  match t.kind with
  | .ident => !r.contains t.text
  | .str | .number => true
  | _ => false

/-
  Pass over what follows a keyword that has no kind: its name
  and a group in braces.
-/
def passUnknown
    (r : Registry)
    (c : Cursor) : Cursor :=
  match c.peek with
  | (none, c) => c
  | (some t, c) =>
      let c := if r.isUnknownName t then c.next.2 else c
      c.passGroup .openUnknownBlock

/-
  Report a token that cannot begin a block, and pass over
  what follows it.
-/
def passStrayFrom
    (t : Token)
    (c : Cursor) : Cursor :=
  let c := c.reportAt (.ofProblem (.strayToken t)) t
  if t.kind = .lBrace then
    match c.skipToClose c.depth with
    | (true, c) => c
    | (false, c) => c.reportAtEnd (.ofProblem .openGroup)
  else
    c.passStray

/-
  Read one item of a script, whose first token has been
  taken: a block, or what is passed over.
-/
def readItem
    (r : Registry)
    (t : Token)
    (c : Cursor) : Option Block × Cursor :=
  if t.kind = .ident then
    match r.lookup t.text with
    | some kind =>
        let (block, c) := readKind kind t c
        (some block, c)
    | none =>
        let problem := Problem.unknownKeyword t.text
        (none, r.passUnknown (c.reportAt (.ofProblem problem) t))
  else
    (none, passStrayFrom t c)

------------------------------------------------------------
-- Reachability
------------------------------------------------------------

theorem reaches_readName
    (keyword : String)
    (c : Cursor) :
    c.Reaches (readName keyword c).2 := by
  unfold readName
  split
  · rename_i c' h
    exact (Cursor.Reaches.of_peek h).reportAtEnd _
  · rename_i t c' h
    have hPeek : c.Reaches c' := .of_peek h
    split
    · exact hPeek.next
    · simp only
      split
      · exact hPeek.report _
      · exact hPeek.next.report _

theorem reaches_readKind
    (kind : BlockKind)
    (keyword : Token)
    (c : Cursor) :
    c.Reaches (readKind kind keyword c).2 := by
  unfold readKind
  have hName :
      c.Reaches
        (if kind.named then
          readName keyword.text c
        else
          (none, c)).2 := by
    split
    · exact reaches_readName keyword.text c
    · exact Cursor.Reaches.refl
  simp only
  generalize
    (if kind.named then
      readName keyword.text c
    else
      (none, c)) = named at *
  have hEat := Cursor.reaches_eat named.2 .lBrace
  split
  · rename_i t c' h
    rw [h] at hEat
    exact (hName.trans hEat).trans
      (Header.reaches_readBlock _ _ c')
  · rename_i c' h
    rw [h] at hEat
    exact (hName.trans hEat).peek.trans
      (Cursor.reaches_reportNear _ _ _)

theorem reaches_passUnknown
    (r : Registry)
    (c : Cursor) :
    c.Reaches (r.passUnknown c) := by
  unfold passUnknown
  split
  · rename_i c' h
    exact .of_peek h
  · rename_i t c' h
    have hPeek : c.Reaches c' := .of_peek h
    simp only
    refine Cursor.Reaches.trans ?_
      (Cursor.reaches_passGroup _ _)
    split
    · exact hPeek.next
    · exact hPeek

theorem reaches_passStrayFrom
    (t : Token)
    (c : Cursor) :
    c.Reaches (passStrayFrom t c) := by
  have hReport :=
    Cursor.reaches_reportAt c (.ofProblem (.strayToken t)) t
  unfold passStrayFrom
  simp only
  generalize
    c.reportAt (.ofProblem (.strayToken t)) t = c' at *
  split
  · have hSkip := Cursor.reaches_skipToClose c' c'.depth
    split
    · rename_i c'' h
      rw [h] at hSkip
      exact hReport.trans hSkip
    · rename_i c'' h
      rw [h] at hSkip
      exact (hReport.trans hSkip).reportAtEnd _
  · exact hReport.trans (Cursor.reaches_passStray c')

/- Reading an item moves the cursor by its operations only. -/
theorem reaches_readItem
    (r : Registry)
    (t : Token)
    (c : Cursor) :
    c.Reaches (r.readItem t c).2 := by
  unfold readItem
  split
  · split
    · exact reaches_readKind _ t c
    · exact (Cursor.reaches_reportAt c _ t).trans
        (reaches_passUnknown r _)
  · exact reaches_passStrayFrom t c

------------------------------------------------------------
-- All Items
------------------------------------------------------------

/-
  Read all items of a script. The blocks read so far are in
  `blocks`, last first.
-/
def readItems
    (r : Registry)
    (blocks : List Block)
    (c : Cursor) : List Block × Cursor :=
  match _ : c.next with
  | (none, c') => (blocks.reverse, c')
  | (some t, c') =>
      let item := r.readItem t c'
      r.readItems (item.1.toList ++ blocks) item.2
termination_by c.size
decreasing_by
  rename_i h
  have hLt := Cursor.size_next_lt (c := c) (by simp [h])
  have hLe := (reaches_readItem r t c').size_le
  rw [h] at hLt
  exact Nat.lt_of_le_of_lt hLe hLt

end Registry

------------------------------------------------------------
-- Scripts
------------------------------------------------------------

/- The blocks of a script and what was reported about it. -/
structure Script where
  blocks : List Block
  diagnostics : List Diagnostic

namespace Script

/- Parse from a cursor to the end of input. -/
def ofCursor
    (r : Registry)
    (c : Cursor) : Script :=
  let (blocks, c) := r.readItems [] c
  { blocks, diagnostics := c.finish }

/- Parse a script. -/
def parse
    (r : Registry)
    (source : String) : Script :=
  ofCursor r (.ofSource source)

/- Parse tokens made before. -/
def ofTokens
    (r : Registry)
    (tokens : List Token) : Script :=
  ofCursor r (.ofTokens tokens)

/-
  Parse from a cursor in a build that checks its sums, which
  gives no result if a column does not fit.
-/
def ofCursorChecked
    (r : Registry)
    (c : Cursor) : Option Script :=
  if (r.readItems [] c).2.overflowed then
    none
  else
    some (ofCursor r c)

/- The blocks that could not be read. -/
def failedBlocks (s : Script) : List Block :=
  s.blocks.filter (·.isFailed)

/- The blocks that were read. -/
def parsedBlocks (s : Script) : List Block :=
  s.blocks.filter (!·.isFailed)

/- The first block read with a keyword and a name. -/
def find?
    (s : Script)
    (keyword : String)
    (name : Option String) : Option Block :=
  s.parsedBlocks.find? fun b =>
    b.keyword == keyword && b.name == name

/- Keyword, name and failure of every block. -/
def outline
    (s : Script) : List (String × Option String × Bool) :=
  s.blocks.map fun b => (b.keyword, b.name, b.isFailed)

end Script
end BlockScript
