import Mathlib.Data.List.Forall2
import BlockScript.Proofs.Simulation

/-
  This file shows that values and bodies are read alike by
  two runs in step, so that blocks with the same body agree.

  Key definitions include:
    * `Simulation.Agrees`
    * `Simulation.SameBlock`
    * `Simulation.Bodies`

  Key theorems include:
    * `Simulation.readValue`
    * `Simulation.readFields`
    * `Simulation.bodies_table`
    * `Simulation.bodies_unstructured`
-/

namespace BlockScript

------------------------------------------------------------
-- Loops, One Token at a Time
------------------------------------------------------------

theorem ValueType.readItems_eq
    (key : String)
    (items : List String)
    (c : Cursor) :
    readItems key items c
      = match c.next with
        | (none, c') => (.error .unexpectedEof, c')
        | (some t, c') =>
            if t.kind = .rBrace then
              (.ok (.list items.reverse), c')
            else if t.kind.isScalar then
              readItems key (t.text :: items) c'
            else
              (.error (.blame t (.wrongItem key t)), c') := by
  rw [readItems]
  split <;> simp_all

theorem FieldTable.readFields_eq
    (table : FieldTable)
    (fields : List Field)
    (c : Cursor) :
    table.readFields fields c
      = match c.next with
        | (none, c') => (.error .unexpectedEof, c')
        | (some key, c') =>
            if key.kind = .rBrace then
              (.ok fields.reverse, c')
            else
              match table.accept fields key with
              | .error e => (.error e, c')
              | .ok spec =>
                  match spec.type.read key.text c' with
                  | (.error e, c'') => (.error e, c'')
                  | (.ok value, c'') =>
                      table.readFields
                        ({ key := spec.name,
                           value,
                           span :=
                             { start := key.span.start,
                               stop := c''.lastSpan.stop } }
                          :: fields) c'' := by
  rw [readFields]
  split
  · simp_all
  · rename_i key d hNext
    simp only [hNext]
    by_cases hKind : key.kind = .rBrace
    · simp only [if_pos hKind]
    · simp only [if_neg hKind]
      cases table.accept fields key with
      | error e => rfl
      | ok spec =>
          simp only
          split <;> simp_all

namespace Simulation

variable {S : Simulation}
variable {c c' : Cursor}

------------------------------------------------------------
-- Readings
------------------------------------------------------------

/-
  What two runs read. Malformed input is blamed on related
  tokens in the same words.
-/
inductive Agrees
    {α β : Type}
    (S : Simulation)
    (value : α → β → Prop) :
    Reading α → Reading β → Prop where
  | ok
      {a : α}
      {b : β}
      {c c' : Cursor}
      (hValue : value a b)
      (hCursor : S.cursor c c') :
      Agrees S value (.ok a, c) (.ok b, c')
  | malformed
      {cause cause' : Malformation}
      {t t' : Token}
      {c c' : Cursor}
      (hMessage : cause'.message = cause.message)
      (hToken : S.token t t')
      (hCursor : S.cursor c c') :
      Agrees S value
        (.error (.blame t cause), c)
        (.error (.blame t' cause'), c')
  | eof
      {c c' : Cursor}
      (hCursor : S.cursor c c') :
      Agrees S value
        (.error .unexpectedEof, c)
        (.error .unexpectedEof, c')
  | left
      {c : Cursor}
      {x' : Reading β}
      (hLost : ∀ d, S.lost (c.reportAtEnd d)) :
      Agrees S value (.error .unexpectedEof, c) x'

/- The end of the left run is the end of its reading. -/
theorem Agrees.ended
    {α β : Type}
    {value : α → β → Prop}
    {x' : Reading β}
    (hEnded : S.ended c c') :
    S.Agrees value (.error .unexpectedEof, c) x' :=
  .left fun d => S.lost_of_ended d hEnded

------------------------------------------------------------
-- Values
------------------------------------------------------------

theorem readScalar
    (type : ScalarType)
    (key : String)
    (hCursor : S.cursor c c') :
    S.Agrees Eq (type.read key c) (type.read key c') := by
  have hPeeks := peeks hCursor
  unfold ScalarType.read
  generalize c.peek = p at hPeeks ⊢
  generalize c'.peek = p' at hPeeks ⊢
  cases hPeeks with
  | both hToken hCursor hNext =>
      have hDescribe := describe_eq hToken
      simp only [S.kind_eq hToken, S.text_eq hToken]
      split
      · split
        · exact .ok rfl hNext
        · refine .malformed ?_ hToken hNext
          unfold Malformation.message
          simp only [hDescribe]
      · refine .malformed ?_ hToken hCursor
        unfold Malformation.message
        simp only [hDescribe]
  | neither hCursor => exact .eof hCursor
  | left hEnded => exact .ended hEnded

theorem readListItems
    (key : String)
    (items : List String)
    (hCursor : S.cursor c c') :
    S.Agrees Eq (ValueType.readItems key items c)
      (ValueType.readItems key items c') := by
  fun_induction ValueType.readItems key items c
    generalizing c' with
  | case1 items c d hNext =>
      have hStep := S.next hCursor
      rw [hNext] at hStep
      rw [ValueType.readItems_eq]
      generalize c'.next = p' at hStep ⊢
      cases hStep with
      | neither hCursor => exact .eof hCursor
      | left hLost => exact .left hLost
  | case2 items c t d hNext hKind =>
      have hStep := S.next hCursor
      rw [hNext] at hStep
      rw [ValueType.readItems_eq]
      generalize c'.next = p' at hStep ⊢
      cases hStep with
      | both hToken hCursor =>
          simp only [S.kind_eq hToken, hKind, if_true]
          exact .ok rfl hCursor
  | case3 items c t d hNext hKind hScalar ih =>
      have hStep := S.next hCursor
      rw [hNext] at hStep
      rw [ValueType.readItems_eq key items c']
      generalize c'.next = p' at hStep ⊢
      cases hStep with
      | both hToken hCursor =>
          simp only [S.kind_eq hToken, S.text_eq hToken,
            hKind, hScalar, if_true, if_false]
          exact ih hCursor
  | case4 items c t d hNext hKind hScalar =>
      have hStep := S.next hCursor
      rw [hNext] at hStep
      rw [ValueType.readItems_eq]
      generalize c'.next = p' at hStep ⊢
      cases hStep with
      | both hToken hCursor =>
          simp only [S.kind_eq hToken, hKind, hScalar,
            if_false]
          refine .malformed ?_ hToken hCursor
          unfold Malformation.message
          simp only [describe_eq hToken]

theorem readList
    (key : String)
    (hCursor : S.cursor c c') :
    S.Agrees Eq (ValueType.readList key c)
      (ValueType.readList key c') := by
  have hPeeks := peeks hCursor
  unfold ValueType.readList
  generalize c.peek = p at hPeeks ⊢
  generalize c'.peek = p' at hPeeks ⊢
  cases hPeeks with
  | both hToken hCursor hNext =>
      simp only [S.kind_eq hToken]
      split
      · exact readListItems key [] hNext
      · refine .malformed ?_ hToken hCursor
        unfold Malformation.message
        simp only [describe_eq hToken]
  | neither hCursor => exact .eof hCursor
  | left hEnded => exact .ended hEnded

mutual

theorem readValue
    {c c' : Cursor}
    (type : ValueType)
    (key : String)
    (hCursor : S.cursor c c') :
    S.Agrees Eq (type.read key c) (type.read key c') := by
  cases type with
  | scalar type =>
      simp only [ValueType.read]
      exact readScalar type key hCursor
  | list =>
      simp only [ValueType.read]
      exact readList key hCursor
  | record parts =>
      have hParts := readParts parts key hCursor
      simp only [ValueType.read]
      generalize ValueType.readParts parts key c = x
        at hParts ⊢
      generalize ValueType.readParts parts key c' = x'
        at hParts ⊢
      cases hParts with
      | ok hValue hCursor => exact .ok (by rw [hValue]) hCursor
      | malformed hMessage hToken hCursor =>
          exact .malformed hMessage hToken hCursor
      | eof hCursor => exact .eof hCursor
      | left hLost => exact .left hLost

theorem readParts
    {c c' : Cursor}
    (parts : List ValueType)
    (key : String)
    (hCursor : S.cursor c c') :
    S.Agrees Eq (ValueType.readParts parts key c)
      (ValueType.readParts parts key c') := by
  cases parts with
  | nil =>
      simp only [ValueType.readParts]
      exact .ok rfl hCursor
  | cons type types =>
      have hFirst := readValue type key hCursor
      simp only [ValueType.readParts]
      generalize type.read key c = x at hFirst ⊢
      generalize type.read key c' = x' at hFirst ⊢
      cases hFirst with
      | ok hValue hCursor =>
          rename_i v v' d d'
          have hRest := readParts types key hCursor
          simp only
          generalize ValueType.readParts types key d = y
            at hRest ⊢
          generalize ValueType.readParts types key d' = y'
            at hRest ⊢
          cases hRest with
          | ok hValues hCursor =>
              exact .ok (by rw [hValue, hValues]) hCursor
          | malformed hMessage hToken hCursor =>
              exact .malformed hMessage hToken hCursor
          | eof hCursor => exact .eof hCursor
          | left hLost => exact .left hLost
      | malformed hMessage hToken hCursor =>
          exact .malformed hMessage hToken hCursor
      | eof hCursor => exact .eof hCursor
      | left hLost => exact .left hLost

end

------------------------------------------------------------
-- Tables of Fields
------------------------------------------------------------

/- Fields that two runs read. -/
structure SameField
    (S : Simulation)
    (f f' : Field) : Prop where
  key_eq : f'.key = f.key
  value_eq : f'.value = f.value
  start : S.offset f.span.start f'.span.start
  stop : S.offset f.span.stop f'.span.stop

/- Related fields have the same keys. -/
theorem any_key_eq
    {fields fields' : List Field}
    (hFields : List.Forall₂ S.SameField fields fields')
    (name : String) :
    fields'.any (·.key == name) = fields.any (·.key == name) := by
  induction hFields with
  | nil => rfl
  | cons hField _ ih =>
      simp only [List.any_cons, hField.key_eq, ih]

/-
  What two runs make of a key: the same field, or the same
  words about the two tokens.
-/
theorem accept_cases
    {t t' : Token}
    {fields fields' : List Field}
    (table : FieldTable)
    (hFields : List.Forall₂ S.SameField fields fields')
    (hToken : S.token t t') :
    (∃ spec,
      table.accept fields t = .ok spec
        ∧ table.accept fields' t' = .ok spec)
    ∨ ∃ cause cause',
      cause'.message = cause.message
        ∧ table.accept fields t = .error (.blame t cause)
        ∧ table.accept fields' t' = .error (.blame t' cause') := by
  unfold FieldTable.accept
  simp only [isWord_eq hToken, S.text_eq hToken,
    any_key_eq hFields]
  split
  · split
    · exact .inr ⟨_, _, rfl, rfl, rfl⟩
    · split
      · exact .inr ⟨_, _, rfl, rfl, rfl⟩
      · exact .inl ⟨_, rfl, rfl⟩
  · refine .inr ⟨_, _, ?_, rfl, rfl⟩
    unfold Malformation.message
    simp only [describe_eq hToken]

theorem readFields
    {fields fields' : List Field}
    (table : FieldTable)
    (hFields : List.Forall₂ S.SameField fields fields')
    (hCursor : S.cursor c c') :
    S.Agrees (List.Forall₂ S.SameField)
      (table.readFields fields c)
      (table.readFields fields' c') := by
  generalize hSize : c.size = n
  induction n using Nat.strongRecOn
    generalizing c c' fields fields' with
  | ind n ih =>
      have hStep := S.next hCursor
      have hLess := Cursor.size_next_lt (c := c)
      rw [FieldTable.readFields_eq, FieldTable.readFields_eq]
      generalize c.next = p at hStep hLess ⊢
      generalize c'.next = p' at hStep ⊢
      cases hStep with
      | neither hCursor => exact .eof hCursor
      | left hLost => exact .left hLost
      | both hToken hCursor =>
          rename_i t t' d d'
          simp only [S.kind_eq hToken, S.text_eq hToken]
          split
          · exact .ok (List.forall₂_reverse_iff.mpr hFields) hCursor
          · rcases accept_cases table hFields hToken with
              ⟨spec, hLeft, hRight⟩
              | ⟨cause, cause', hMessage, hLeft, hRight⟩
            · rw [hLeft, hRight]
              have hValue := readValue spec.type t.text hCursor
              have hReaches :=
                ValueType.reaches_read spec.type t.text d
              simp only
              generalize spec.type.read t.text d = x
                at hValue hReaches ⊢
              generalize spec.type.read t.text d' = x'
                at hValue ⊢
              cases hValue with
              | ok hEq hCursor =>
                  refine ih _ ?_ (.cons ?_ hFields) hCursor rfl
                  · have hLe := hReaches.size_le
                    have hLt := hLess rfl
                    simp only at hLe hLt
                    omega
                  · exact ⟨rfl, hEq.symm, S.start hToken,
                      S.stop hCursor⟩
              | malformed hMessage hToken hCursor =>
                  exact .malformed hMessage hToken hCursor
              | eof hCursor => exact .eof hCursor
              | left hLost => exact .left hLost
            · rw [hLeft, hRight]
              exact .malformed hMessage hToken hCursor

------------------------------------------------------------
-- Blocks
------------------------------------------------------------

/- Headers that two runs read. -/
structure SameHeader
    (S : Simulation)
    (h h' : Header) : Prop where
  keyword_eq : h'.keyword = h.keyword
  name_eq : h'.name = h.name
  start : S.offset h.span.start h'.span.start
  stop : S.offset h.span.stop h'.span.stop

/-
  Blocks that two runs read, with outcomes related in some
  way.
-/
structure SameBlock
    (S : Simulation)
    (outcome : Outcome → Outcome → Prop)
    (b b' : Block) : Prop where
  keyword_eq : b'.keyword = b.keyword
  name_eq : b'.name = b.name
  start : S.offset b.span.start b'.span.start
  stop : S.offset b.span.stop b'.span.stop
  outcome : outcome b.outcome b'.outcome

/- What two runs made of a block, unless the left is lost. -/
inductive Closes
    (S : Simulation)
    (outcome : Outcome → Outcome → Prop) :
    Block × Cursor → Block × Cursor → Prop where
  | both
      {b b' : Block}
      {c c' : Cursor}
      (hBlock : S.SameBlock outcome b b')
      (hCursor : S.cursor c c') :
      Closes S outcome (b, c) (b', c')
  | lost
      {x x' : Block × Cursor}
      (hLost : S.lost x.2) :
      Closes S outcome x x'

/- Bodies that two runs in step read to related blocks. -/
def Bodies
    (S : Simulation)
    (outcome : Outcome → Outcome → Prop)
    (body body' : Body) : Prop :=
  ∀ {h h' : Header} {c c' : Cursor},
    S.SameHeader h h' →
      0 < c.depth →
        S.cursor c c' →
          S.Closes outcome (h.readBlock body c)
            (h'.readBlock body' c')

theorem close
    {outcome : Outcome → Outcome → Prop}
    {h h' : Header}
    {o o' : Outcome}
    (hHeader : S.SameHeader h h')
    (hOutcome : outcome o o')
    (hCursor : S.cursor c c') :
    S.Closes outcome (h.close o c, c) (h'.close o' c', c') :=
  .both
    ⟨hHeader.keyword_eq, hHeader.name_eq, hHeader.start,
      S.stop hCursor, hOutcome⟩
    hCursor

theorem closeAtEnd
    {outcome : Outcome → Outcome → Prop}
    {h h' : Header}
    (hHeader : S.SameHeader h h')
    (hFailed : outcome .failed .failed)
    (hCursor : S.cursor c c') :
    S.Closes outcome (h.closeAtEnd c) (h'.closeAtEnd c') := by
  have hReport :=
    S.reportAtEnd (.ofProblem (.openBlock h.keyword)) rfl
      hCursor
  simp only [Header.closeAtEnd, hHeader.keyword_eq]
  exact close hHeader hFailed hReport

/-
  After a body was read, the rest of the block is skipped on
  both sides.
-/
theorem skipToClose_closes
    {outcome : Outcome → Outcome → Prop}
    {h h' : Header}
    {o o' : Outcome}
    (bodyDepth : Nat)
    (hHeader : S.SameHeader h h')
    (hOutcome : outcome o o')
    (hFailed : outcome .failed .failed)
    (hCursor : S.cursor c c') :
    S.Closes outcome
      (match c.skipToClose bodyDepth with
        | (true, c) => (h.close o c, c)
        | (false, c) => h.closeAtEnd c)
      (match c'.skipToClose bodyDepth with
        | (true, c') => (h'.close o' c', c')
        | (false, c') => h'.closeAtEnd c') := by
  have hSkips := skipToClose bodyDepth hCursor
  generalize c.skipToClose bodyDepth = x at hSkips ⊢
  generalize c'.skipToClose bodyDepth = x' at hSkips ⊢
  cases hSkips with
  | both hCursor =>
      rename_i b d d'
      cases b with
      | true => exact close hHeader hOutcome hCursor
      | false => exact closeAtEnd hHeader hFailed hCursor
  | left hLost => exact .lost (hLost _)

/-
  Readings that agree make related blocks of related headers.
-/
theorem Agrees.closes
    {outcome : Outcome → Outcome → Prop}
    {value : List Field → List Field → Prop}
    {h h' : Header}
    {x x' : Reading (List Field)}
    (bodyDepth : Nat)
    (hHeader : S.SameHeader h h')
    (hFailed : outcome .failed .failed)
    (hParsed :
      ∀ {fields fields' : List Field},
        value fields fields' →
          outcome (.parsed fields) (.parsed fields'))
    (hAgrees : S.Agrees value x x') :
    S.Closes outcome (h.finish bodyDepth x)
      (h'.finish bodyDepth x') := by
  unfold Header.finish
  cases hAgrees with
  | ok hValue hCursor =>
      exact skipToClose_closes bodyDepth hHeader
        (hParsed hValue) hFailed hCursor
  | malformed hMessage hToken hCursor =>
      rename_i cause cause' t t' d d'
      have hReport :=
        S.reportAt
          (.ofProblem (.malformedBody h.keyword cause.message))
          rfl hCursor hToken
      simp only [BodyError.blame, Header.reportMalformed,
        hMessage, hHeader.keyword_eq]
      exact skipToClose_closes bodyDepth hHeader hFailed hFailed
        hReport
  | eof hCursor => exact closeAtEnd hHeader hFailed hCursor
  | left hLost => exact .lost (hLost _)

/- Outcomes of blocks that two runs read in the same way. -/
inductive SameOutcome (S : Simulation) :
    Outcome → Outcome → Prop where
  | parsed
      {fields fields' : List Field}
      (hFields : List.Forall₂ S.SameField fields fields') :
      SameOutcome S (.parsed fields) (.parsed fields')
  | failed : SameOutcome S .failed .failed

/- A table is read alike by two runs in step. -/
theorem bodies_table
    (table : FieldTable) :
    S.Bodies S.SameOutcome (.table table) (.table table) := by
  intro h h' c c' hHeader _ hCursor
  rw [Header.readBlock, Header.readBlock, S.depth_eq hCursor]
  exact Agrees.closes c.depth hHeader .failed .parsed
    (readFields table .nil hCursor)

/- A body without structure is read alike by two runs. -/
theorem bodies_unstructured :
    S.Bodies S.SameOutcome .unstructured .unstructured := by
  intro h h' c c' hHeader _ hCursor
  rw [Header.readBlock, Header.readBlock, S.depth_eq hCursor]
  apply Agrees.closes c.depth hHeader .failed .parsed
  have hSkips := skipToClose c.depth hCursor
  simp only [Body.read, S.depth_eq hCursor]
  generalize c.skipToClose c.depth = x at hSkips ⊢
  generalize c'.skipToClose c.depth = x' at hSkips ⊢
  cases hSkips with
  | both hCursor =>
      rename_i b d d'
      cases b with
      | true => exact .ok .nil hCursor
      | false => exact .eof hCursor
  | left hLost => exact .left hLost

end Simulation
end BlockScript
