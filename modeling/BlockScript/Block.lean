import BlockScript.Body.Reader

/-
  This file defines blocks and reads them once their header
  is known.

  Key definitions include:
    * `Outcome`
    * `Block`
    * `Header.finish`
    * `Header.readBlock`

  Key theorems include:
    * `Header.reaches_readBlock`
-/

namespace BlockScript

------------------------------------------------------------
-- Blocks
------------------------------------------------------------

/- What became of a block: its fields, or nothing. -/
inductive Outcome where
  | parsed (fields : List Field)
  | failed

/-
  A block of a script. A block that was read reaches from its
  keyword through its closing brace.
-/
structure Block where
  keyword : String
  name : Option String
  span : Span
  outcome : Outcome

namespace Block

/- Whether a block could not be read. -/
def isFailed (b : Block) : Bool :=
  match b.outcome with
  | .parsed _ => false
  | .failed => true

/- The fields of a block that was read. -/
def fields? (b : Block) : Option (List Field) :=
  match b.outcome with
  | .parsed fields => some fields
  | .failed => none

/- Keyword and name. -/
def title (b : Block) : String :=
  match b.name with
  | some name => b.keyword ++ " " ++ name
  | none => b.keyword

end Block

------------------------------------------------------------
-- Headers
------------------------------------------------------------

namespace Header

/- The block of a header that ends at the last token taken. -/
def close
    (h : Header)
    (outcome : Outcome)
    (c : Cursor) : Block :=
  { keyword := h.keyword,
    name := h.name,
    span :=
      { start := h.span.start, stop := c.lastSpan.stop },
    outcome }

/- The block of a header whose body input ended. -/
def closeAtEnd
    (h : Header)
    (c : Cursor) : Block × Cursor :=
  let c :=
    c.reportAtEnd (.ofProblem (.openBlock h.keyword))
  (h.close .failed c, c)

/- Report a malformed body. -/
def reportMalformed
    (h : Header)
    (cause : Malformation)
    (blamed : Option Token)
    (c : Cursor) : Cursor :=
  let d :=
    Diagnostic.ofProblem
      (.malformedBody h.keyword cause.message)
  match blamed with
  | some t => c.reportAt d t
  | none => c.report d

/-
  End the block of a header whose body has been read. What
  the body leaves of the block is passed over, so that the
  cursor ends after the closing brace.
-/
def finish
    (h : Header)
    (bodyDepth : Nat) : Reading (List Field) → Block × Cursor
  | (.ok fields, c) =>
      match c.skipToClose bodyDepth with
      | (true, c) => (h.close (.parsed fields) c, c)
      | (false, c) => h.closeAtEnd c
  | (.error (.malformed cause blamed), c) =>
      let c := h.reportMalformed cause blamed c
      match c.skipToClose bodyDepth with
      | (true, c) => (h.close .failed c, c)
      | (false, c) => h.closeAtEnd c
  | (.error .unexpectedEof, c) => h.closeAtEnd c

/-
  Read the body of a block whose opening brace has been
  taken. The block gets the header that the body leaves.
-/
def readBlock
    (h : Header)
    (body : Body)
    (c : Cursor) : Block × Cursor :=
  (body.header h c).finish c.depth (body.read h c)

theorem readBlock_of_keepsHeader
    {body : Body}
    (h : Header)
    (c : Cursor)
    (hKeeps : body.KeepsHeader) :
    h.readBlock body c = h.finish c.depth (body.read h c) := by
  rw [readBlock, hKeeps h c]

theorem reaches_closeAtEnd
    (h : Header)
    (c : Cursor) :
    c.Reaches (h.closeAtEnd c).2 :=
  Cursor.reaches_reportAtEnd c _

theorem reaches_reportMalformed
    (h : Header)
    (cause : Malformation)
    (blamed : Option Token)
    (c : Cursor) :
    c.Reaches (h.reportMalformed cause blamed c) := by
  unfold reportMalformed
  split
  · exact Cursor.reaches_reportAt c _ _
  · exact Cursor.Reaches.refl.report _

theorem reaches_finish
    (h : Header)
    (bodyDepth : Nat)
    (x : Reading (List Field)) :
    x.2.Reaches (h.finish bodyDepth x).2 := by
  unfold finish
  split
  · rename_i fields c
    have hSkip := Cursor.reaches_skipToClose c bodyDepth
    split
    · rename_i d hClose
      rwa [hClose] at hSkip
    · rename_i d hClose
      rw [hClose] at hSkip
      exact hSkip.trans (h.reaches_closeAtEnd d)
  · rename_i cause blamed c
    have hReport := h.reaches_reportMalformed cause blamed c
    have hSkip :=
      Cursor.reaches_skipToClose
        (h.reportMalformed cause blamed c) bodyDepth
    simp only
    split
    · rename_i d hClose
      rw [hClose] at hSkip
      exact hReport.trans hSkip
    · rename_i d hClose
      rw [hClose] at hSkip
      exact (hReport.trans hSkip).trans (h.reaches_closeAtEnd d)
  · exact h.reaches_closeAtEnd _

/- Reading a block moves the cursor by its operations only. -/
theorem reaches_readBlock
    (h : Header)
    (body : Body)
    (c : Cursor) :
    c.Reaches (h.readBlock body c).2 :=
  (body.reaches_read h c).trans
    ((body.header h c).reaches_finish c.depth (body.read h c))

end Header
end BlockScript
