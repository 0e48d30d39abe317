import BlockScript.Proofs.Reporting
import BlockScript.Proofs.BlockStructure

/-
  This file says where a report can be made while a script is
  read: at the token taken last, at the next one while it is
  looked at, or at the end, when no token is left. Bodies are
  tables or have no structure.

  Key definitions include:
    * `Cursor.Proceeds`
    * `Cursor.Blames`
    * `Cursor.Leaves`

  Key theorems include:
    * `FieldTable.leaves_readFields`
    * `Header.proceeds_readBlock`
    * `Registry.proceeds_readItem`
    * `Registry.proceeds_readItems`
-/

namespace BlockScript
namespace Cursor

------------------------------------------------------------
-- Steps
------------------------------------------------------------

/-
  A cursor that has become another by looking ahead, taking
  tokens and reporting in the places there are. A token that
  was taken is reported at before anything else is done.
-/
inductive Proceeds (c : Cursor) : Cursor → Prop where
  | refl : Proceeds c c
  | peek
      {d : Cursor}
      (hProceeds : Proceeds c d) :
      Proceeds c d.peek.2
  | next
      {d : Cursor}
      (hProceeds : Proceeds c d) :
      Proceeds c d.next.2
  | reportNext
      {d : Cursor}
      {t : Token}
      (x : Diagnostic)
      (hProceeds : Proceeds c d)
      (hPeeked : d.peeked = some t) :
      Proceeds c (d.reportAt x t)
  | reportTaken
      {d e : Cursor}
      {t : Token}
      (x : Diagnostic)
      (hProceeds : Proceeds c d)
      (hNext : d.next = (some t, e)) :
      Proceeds c (e.reportAt x t)
  | reportEnd
      {d : Cursor}
      (x : Diagnostic)
      (hProceeds : Proceeds c d)
      (hEnd : d.tokens = []) :
      Proceeds c (d.reportAtEnd x)

/- The token that a reading stops at, if it is to blame. -/
inductive Blames
    (c : Cursor)
    (t : Token) : Cursor → Prop where
  | next
      {d : Cursor}
      (hProceeds : c.Proceeds d)
      (hPeeked : d.peeked = some t) :
      Blames c t d
  | taken
      {d e : Cursor}
      (hProceeds : c.Proceeds d)
      (hNext : d.next = (some t, e)) :
      Blames c t e

/-
  What a reading leaves: it went well, it stopped at a token
  that it blames, or no token is left.
-/
inductive Leaves
    {α : Type}
    (c : Cursor) : Reading α → Prop where
  | ok
      {a : α}
      {d : Cursor}
      (hProceeds : c.Proceeds d) :
      Leaves c (.ok a, d)
  | blamed
      {cause : Malformation}
      {t : Token}
      {d : Cursor}
      (hBlames : c.Blames t d) :
      Leaves c (.error (.malformed cause (some t)), d)
  | ended
      {d : Cursor}
      (hProceeds : c.Proceeds d)
      (hEnd : d.tokens = []) :
      Leaves c (.error .unexpectedEof, d)

namespace Proceeds

variable {c d e : Cursor}

theorem trans
    (hFirst : c.Proceeds d)
    (hSecond : d.Proceeds e) :
    c.Proceeds e := by
  induction hSecond with
  | refl => exact hFirst
  | peek _ ih => exact ih.peek
  | next _ ih => exact ih.next
  | reportNext x _ hPeeked ih => exact ih.reportNext x hPeeked
  | reportTaken x _ hNext ih => exact ih.reportTaken x hNext
  | reportEnd x _ hEnd ih => exact ih.reportEnd x hEnd

theorem reaches
    (hProceeds : c.Proceeds d) :
    c.Reaches d := by
  induction hProceeds with
  | refl => exact .refl
  | peek _ ih => exact ih.peek
  | next _ ih => exact ih.next
  | reportNext x _ _ ih => exact ih.report _
  | reportTaken x _ hNext ih =>
      have hTaken := ih.next
      rw [hNext] at hTaken
      exact hTaken.report _
  | reportEnd x _ _ ih => exact ih.reportAtEnd x

theorem of_peek
    {found : Option Token}
    (hPeek : c.peek = (found, d)) :
    c.Proceeds d := by
  have hLook : c.Proceeds c.peek.2 := .peek .refl
  rwa [hPeek] at hLook

theorem of_next
    {found : Option Token}
    (hNext : c.next = (found, d)) :
    c.Proceeds d := by
  have hTaken : c.Proceeds c.next.2 := .next .refl
  rwa [hNext] at hTaken

theorem of_eat
    {kind : TokenKind}
    {found : Option Token}
    (hEat : c.eat kind = (found, d)) :
    c.Proceeds d := by
  have hTaken : c.Proceeds (c.eat kind).2 := by
    rw [eat_eq]
    split
    · exact (Proceeds.refl.peek).next
    · exact .peek .refl
  rwa [hEat] at hTaken

/- Skipping takes tokens and does nothing else. -/
theorem of_skipToClose
    {bodyDepth : Nat}
    {closed : Bool}
    (hSkip : c.skipToClose bodyDepth = (closed, d)) :
    c.Proceeds d := by
  fun_induction skipToClose c bodyDepth with
  | case1 c _ =>
      rw [Prod.mk.injEq] at hSkip
      rw [← hSkip.2]
      exact .refl
  | case2 c _ e hNext =>
      rw [Prod.mk.injEq] at hSkip
      rw [← hSkip.2]
      exact .of_next hNext
  | case3 c _ t e hNext ih =>
      exact (of_next hNext).trans (ih hSkip)

/- A skip that meets the end of input may be reported there. -/
theorem reportOpen
    {bodyDepth : Nat}
    (x : Diagnostic)
    (hProceeds : c.Proceeds d)
    (hSkip : d.skipToClose bodyDepth = (false, e)) :
    c.Proceeds (e.reportAtEnd x) :=
  (hProceeds.trans (.of_skipToClose hSkip)).reportEnd x
    (ended_of_skipToClose hSkip).tokens

end Proceeds

/- A look that finds no token leaves none. -/
theorem tokens_of_peek_none
    {c d : Cursor}
    (hPeek : c.peek = (none, d)) :
    d.tokens = [] := by
  have hHead : c.tokens.head? = none := by
    rw [← c.peek_fst, hPeek]
  have hSame : d.tokens = c.tokens := by
    rw [← c.tokens_peek, hPeek]
  rw [hSame]
  exact List.head?_eq_none_iff.mp hHead

/- A token that is looked at stays there. -/
theorem peeked_of_peek
    {c d : Cursor}
    {t : Token}
    (hPeek : c.peek = (some t, d)) :
    d.peeked = some t := by
  have hSame := c.peek_peeked
  rwa [hPeek] at hSame

namespace Blames

variable {c d e : Cursor}
variable {t : Token}

theorem after
    (hProceeds : c.Proceeds d)
    (hBlames : d.Blames t e) :
    c.Blames t e := by
  cases hBlames with
  | next hMore hPeeked =>
      exact .next (hProceeds.trans hMore) hPeeked
  | taken hMore hNext =>
      exact .taken (hProceeds.trans hMore) hNext

theorem proceeds
    (hBlames : c.Blames t d) :
    c.Proceeds d := by
  cases hBlames with
  | next hProceeds _ => exact hProceeds
  | taken hProceeds hNext =>
      exact hProceeds.trans (.of_next hNext)

/- A token that is to blame is reported at. -/
theorem report
    (x : Diagnostic)
    (hBlames : c.Blames t d) :
    c.Proceeds (d.reportAt x t) := by
  cases hBlames with
  | next hProceeds hPeeked => exact hProceeds.reportNext x hPeeked
  | taken hProceeds hNext => exact hProceeds.reportTaken x hNext

end Blames

namespace Leaves

variable {α β : Type}
variable {c d : Cursor}

/- A reading may begin further on. -/
theorem after
    {x : Reading α}
    (hProceeds : c.Proceeds d)
    (hLeaves : d.Leaves x) :
    c.Leaves x := by
  cases hLeaves with
  | ok hMore => exact .ok (hProceeds.trans hMore)
  | blamed hBlames => exact .blamed (hBlames.after hProceeds)
  | ended hMore hEnd => exact .ended (hProceeds.trans hMore) hEnd

/- Where a reading stops, one around it stops as well. -/
theorem error
    {e : BodyError}
    (hLeaves : c.Leaves (.error e, d) (α := α)) :
    c.Leaves (.error e, d) (α := β) := by
  cases hLeaves with
  | blamed hBlames => exact .blamed hBlames
  | ended hProceeds hEnd => exact .ended hProceeds hEnd

theorem proceeds
    {x : Reading α}
    (hLeaves : c.Leaves x) :
    c.Proceeds x.2 := by
  cases hLeaves with
  | ok hProceeds => exact hProceeds
  | blamed hBlames => exact hBlames.proceeds
  | ended hProceeds _ => exact hProceeds

end Leaves
end Cursor

------------------------------------------------------------
-- Values
------------------------------------------------------------

theorem ScalarType.leaves_read
    (type : ScalarType)
    (key : String)
    (c : Cursor) :
    c.Leaves (type.read key c) := by
  unfold read
  rcases hPeek : c.peek with ⟨_ | t, d⟩
  · exact .ended (.of_peek hPeek)
      (Cursor.tokens_of_peek_none hPeek)
  · have hLook : c.Proceeds d := .of_peek hPeek
    have hNext := Cursor.next_of_peek_some hPeek
    simp only
    split
    · split
      · exact .ok hLook.next
      · exact .blamed (.taken hLook hNext)
    · exact .blamed (.next hLook (Cursor.peeked_of_peek hPeek))

namespace ValueType

theorem leaves_readItems
    (key : String)
    (items : List String)
    (c : Cursor) :
    c.Leaves (readItems key items c) := by
  fun_induction readItems key items c with
  | case1 items c d hNext =>
      exact .ended (.of_next hNext)
        (Cursor.ended_of_next hNext).tokens
  | case2 items c t d hNext hKind => exact .ok (.of_next hNext)
  | case3 items c t d hNext hKind hScalar ih =>
      exact ih.after (.of_next hNext)
  | case4 items c t d hNext hKind hScalar =>
      exact .blamed (.taken .refl hNext)

theorem leaves_readList
    (key : String)
    (c : Cursor) :
    c.Leaves (readList key c) := by
  unfold readList
  rcases hPeek : c.peek with ⟨_ | t, d⟩
  · exact .ended (.of_peek hPeek)
      (Cursor.tokens_of_peek_none hPeek)
  · have hLook : c.Proceeds d := .of_peek hPeek
    simp only
    split
    · exact (leaves_readItems key [] _).after hLook.next
    · exact .blamed (.next hLook (Cursor.peeked_of_peek hPeek))

mutual

/- Reading a value blames the token at which it stops. -/
theorem leaves_read
    (type : ValueType)
    (key : String)
    (c : Cursor) :
    c.Leaves (type.read key c) := by
  cases type with
  | scalar type =>
      simp only [read]
      exact type.leaves_read key c
  | list =>
      simp only [read]
      exact leaves_readList key c
  | record parts =>
      have hParts := leaves_readParts parts key c
      simp only [read]
      rcases hRead : readParts parts key c with ⟨e | vs, d⟩ <;>
        rw [hRead] at hParts
      · exact hParts.error
      · exact .ok hParts.proceeds

theorem leaves_readParts
    (parts : List ValueType)
    (key : String)
    (c : Cursor) :
    c.Leaves (readParts parts key c) := by
  cases parts with
  | nil =>
      simp only [readParts]
      exact .ok .refl
  | cons type types =>
      have hType := leaves_read type key c
      simp only [readParts]
      rcases hRead : type.read key c with ⟨e | v, d⟩ <;>
        rw [hRead] at hType
      · exact hType.error
      · have hTypes := leaves_readParts types key d
        simp only
        rcases hMore : readParts types key d with ⟨e | vs, f⟩ <;>
          rw [hMore] at hTypes
        · exact hTypes.after hType.proceeds
        · exact .ok (hType.proceeds.trans hTypes.proceeds)

end

end ValueType

------------------------------------------------------------
-- Bodies
------------------------------------------------------------

/- A key that is not accepted is blamed itself. -/
theorem FieldTable.leaves_accept
    {α : Type}
    {table : FieldTable}
    {fields : List Field}
    {key : Token}
    {c d : Cursor}
    {e : BodyError}
    (hNext : c.next = (some key, d))
    (hAccept : table.accept fields key = .error e) :
    c.Leaves (.error e, d) (α := α) := by
  have hBlames : c.Blames key d := .taken .refl hNext
  unfold accept at hAccept
  split at hAccept
  · split at hAccept
    · cases hAccept
      exact .blamed hBlames
    · split at hAccept <;> cases hAccept
      exact .blamed hBlames
  · cases hAccept
    exact .blamed hBlames

/- The induction is on the entries that are read. -/
theorem FieldTable.leaves_readFields
    (table : FieldTable)
    (fields : List Field)
    (c : Cursor) :
    c.Leaves (table.readFields fields c) := by
  fun_induction readFields table fields c with
  | case1 fields c d hNext =>
      exact .ended (.of_next hNext)
        (Cursor.ended_of_next hNext).tokens
  | case2 fields c key d hNext hKind => exact .ok (.of_next hNext)
  | case3 fields c key d hNext hKind e hAccept =>
      exact leaves_accept hNext hAccept
  | case4 fields c key d hNext hKind spec hAccept e f hRead =>
      have hValue := spec.type.leaves_read key.text d
      rw [hRead] at hValue
      exact hValue.error.after (.of_next hNext)
  | case5 fields c key d hNext hKind spec hAccept v f hRead
      field ih =>
      have hValue := spec.type.leaves_read key.text d
      rw [hRead] at hValue
      exact ih.after
        ((Cursor.Proceeds.of_next hNext).trans hValue.proceeds)

theorem Body.leaves_read
    {body : Body}
    (hPlain : body.isCustom = false)
    (h : Header)
    (c : Cursor) :
    c.Leaves (body.read h c) := by
  cases body with
  | unstructured =>
      simp only [read]
      rcases hSkip : c.skipToClose c.depth with ⟨_ | _, d⟩
      · exact .ended (.of_skipToClose hSkip)
          (Cursor.ended_of_skipToClose hSkip).tokens
      · exact .ok (.of_skipToClose hSkip)
  | table t => exact t.leaves_readFields [] c
  | custom g => simp [isCustom] at hPlain

------------------------------------------------------------
-- Blocks
------------------------------------------------------------

namespace Header

/- What is left of a block is skipped. -/
theorem proceeds_close
    {c d : Cursor}
    (h : Header)
    (o : Outcome)
    (bodyDepth : Nat)
    (hProceeds : c.Proceeds d) :
    c.Proceeds
      (match d.skipToClose bodyDepth with
        | (true, e) => (h.close o e, e)
        | (false, e) => h.closeAtEnd e).2 := by
  rcases hSkip : d.skipToClose bodyDepth with ⟨_ | _, e⟩
  · exact hProceeds.reportOpen _ hSkip
  · exact hProceeds.trans (.of_skipToClose hSkip)

/- A malformed body is reported at the token to blame. -/
theorem proceeds_readBlock
    {body : Body}
    (h : Header)
    (hPlain : body.isCustom = false)
    (c : Cursor) :
    c.Proceeds (h.readBlock body c).2 := by
  have hBody := Body.leaves_read hPlain h c
  rw [h.readBlock_of_keepsHeader c
    (Body.keepsHeader_of_plain hPlain)]
  generalize body.read h c = x at hBody
  cases hBody with
  | ok hProceeds => exact h.proceeds_close _ c.depth hProceeds
  | blamed hBlames =>
      exact h.proceeds_close .failed c.depth (hBlames.report _)
  | ended hProceeds hEnd => exact hProceeds.reportEnd _ hEnd

end Header

------------------------------------------------------------
-- Items
------------------------------------------------------------

namespace Cursor

theorem proceeds_passGroup
    (c : Cursor)
    (problem : Problem) :
    c.Proceeds (c.passGroup problem) := by
  unfold passGroup skipGroup
  rcases hEat : c.eat .lBrace with ⟨_ | l, d⟩
  · exact .of_eat hEat
  · have hBrace : c.Proceeds d := .of_eat hEat
    simp only
    rcases hSkip : d.skipToClose d.depth with ⟨_ | _, e⟩
    · exact hBrace.reportOpen _ hSkip
    · exact hBrace.trans (.of_skipToClose hSkip)

theorem proceeds_passStray
    (c : Cursor) :
    c.Proceeds c.passStray := by
  fun_induction passStray c with
  | case1 c d hPeek => exact .of_peek hPeek
  | case2 c t d hPeek _ => exact .of_peek hPeek
  | case3 c t d hPeek _ =>
      exact (Proceeds.of_peek hPeek).trans
        (d.proceeds_passGroup .openGroup)
  | case4 c t d hPeek _ _ ih =>
      exact (Proceeds.of_peek hPeek).next.trans ih

/- A report near a token is at it, or at the end without one. -/
theorem proceeds_reportNear
    {c d : Cursor}
    {found : Option Token}
    (x : Diagnostic)
    (hPeek : c.peek = (found, d)) :
    c.Proceeds (d.reportNear x found) := by
  have hLook : c.Proceeds d := .of_peek hPeek
  cases found with
  | none => exact hLook.reportEnd x (tokens_of_peek_none hPeek)
  | some t => exact hLook.reportNext x (peeked_of_peek hPeek)

end Cursor

namespace Registry

/- A token that is no name is reported, taken or not. -/
theorem proceeds_readName
    (keyword : String)
    (c : Cursor) :
    c.Proceeds (readName keyword c).2 := by
  unfold readName
  rcases hPeek : c.peek with ⟨_ | t, d⟩
  · exact Cursor.proceeds_reportNear _ hPeek
  · have hLook : c.Proceeds d := .of_peek hPeek
    have hNext := Cursor.next_of_peek_some hPeek
    simp only
    split
    · exact hLook.next
    · split
      · exact Cursor.proceeds_reportNear _ hPeek
      · exact hLook.reportTaken _ hNext

theorem proceeds_readNamed
    (kind : BlockKind)
    (keyword : String)
    (c : Cursor) :
    c.Proceeds (readNamed kind keyword c).2 := by
  unfold readNamed
  split
  · exact proceeds_readName keyword c
  · exact .refl

theorem proceeds_readBraced
    {kind : BlockKind}
    (keyword : Token)
    (name : Option String)
    (c : Cursor)
    (hPlain : kind.body.isCustom = false) :
    c.Proceeds (readBraced kind keyword name c).2 := by
  unfold readBraced
  rcases hEat : c.eat .lBrace with ⟨_ | l, d⟩
  · rcases hPeek : d.peek with ⟨found, e⟩
    simp only [hPeek]
    exact (Cursor.Proceeds.of_eat hEat).trans
      (Cursor.proceeds_reportNear _ hPeek)
  · exact (Cursor.Proceeds.of_eat hEat).trans
      (Header.proceeds_readBlock _ hPlain d)

theorem proceeds_passUnknown
    (r : Registry)
    (c : Cursor) :
    c.Proceeds (r.passUnknown c) := by
  unfold passUnknown
  rcases hPeek : c.peek with ⟨_ | t, d⟩
  · exact .of_peek hPeek
  · have hLook : c.Proceeds d := .of_peek hPeek
    simp only
    split
    · exact hLook.next.trans (Cursor.proceeds_passGroup _ _)
    · exact hLook.trans (Cursor.proceeds_passGroup _ _)

/- A stray token is reported when it has been taken. -/
theorem proceeds_passStrayFrom
    {c d : Cursor}
    {t : Token}
    (hNext : c.next = (some t, d)) :
    c.Proceeds (passStrayFrom t d) := by
  have hReport :
      c.Proceeds (d.reportAt (.ofProblem (.strayToken t)) t) :=
    Cursor.Proceeds.refl.reportTaken _ hNext
  unfold passStrayFrom
  generalize
    d.reportAt (.ofProblem (.strayToken t)) t = e at *
  simp only
  split
  · rcases hSkip : e.skipToClose e.depth with ⟨_ | _, f⟩
    · exact hReport.reportOpen _ hSkip
    · exact hReport.trans (.of_skipToClose hSkip)
  · exact hReport.trans e.proceeds_passStray

/- An item begins with the token that has been taken. -/
theorem proceeds_readItem
    {r : Registry}
    {c d : Cursor}
    {t : Token}
    (hPlain : r.Plain)
    (hNext : c.next = (some t, d)) :
    c.Proceeds (r.readItem t d).2 := by
  unfold readItem
  split
  · rcases hLookup : r.lookup t.text with _ | kind
    · have hReport :=
        Cursor.Proceeds.refl.reportTaken
          (.ofProblem (.unknownKeyword t.text)) hNext
      exact hReport.trans (proceeds_passUnknown r _)
    · have hBody : kind.body.isCustom = false :=
        hPlain kind (KindTable.mem_kinds_of_get? hLookup)
      have hNamed := proceeds_readNamed kind t.text d
      simp only [readKind_eq]
      exact ((Cursor.Proceeds.of_next hNext).trans hNamed).trans
        (proceeds_readBraced t _ _ hBody)
  · exact proceeds_passStrayFrom hNext

/- The steps of all items are steps of the whole. -/
theorem proceeds_readItems
    {r : Registry}
    (hPlain : r.Plain)
    (blocks : List Block)
    (c : Cursor) :
    c.Proceeds (r.readItems blocks c).2 := by
  fun_induction readItems r blocks c with
  | case1 blocks c d hNext => exact .of_next hNext
  | case2 blocks c t d hNext item ih =>
      exact (proceeds_readItem hPlain hNext).trans ih

end Registry
end BlockScript
