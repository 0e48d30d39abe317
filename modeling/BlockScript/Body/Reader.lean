import BlockScript.Value.Reader

/-
  This file reads the bodies of blocks, and says what header
  they leave.

  Key definitions include:
    * `FieldTable.readFields`
    * `Body.read`
    * `Body.header`
    * `Body.KeepsHeader`

  Key theorems include:
    * `FieldTable.reaches_readFields`
    * `Body.reaches_read`
    * `Body.keepsHeader_of_plain`
-/

namespace BlockScript

------------------------------------------------------------
-- Tables of Fields
------------------------------------------------------------

namespace FieldTable

/-
  The specification of the field that a key begins, where
  `fields` have been read before it.
-/
def accept
    (table : FieldTable)
    (fields : List Field)
    (key : Token) : Except BodyError FieldSpec :=
  if key.isWord then
    match table.spec? key.text with
    | none =>
        .error (.blame key (.unknownField key.text))
    | some spec =>
        if !spec.repeatable
            && fields.any (·.key == spec.name) then
          .error (.blame key (.repeatedField spec.name))
        else
          .ok spec
  else
    .error (.blame key (.notFieldName key))

/-
  Read entries up to the closing brace of a body, after those
  in `fields`, last first.
-/
def readFields
    (table : FieldTable)
    (fields : List Field)
    (c : Cursor) : Reading (List Field) :=
  match _ : c.next with
  | (none, c') => (.error .unexpectedEof, c')
  | (some key, c') =>
      if key.kind = .rBrace then
        (.ok fields.reverse, c')
      else
        match table.accept fields key with
        | .error e => (.error e, c')
        | .ok spec =>
            match _ : spec.type.read key.text c' with
            | (.error e, c'') => (.error e, c'')
            | (.ok value, c'') =>
                let field : Field :=
                  { key := spec.name,
                    value,
                    span :=
                      { start := key.span.start,
                        stop := c''.lastSpan.stop } }
                table.readFields (field :: fields) c''
termination_by c.size
decreasing_by
  rename_i hNext _ hRead
  have hLt := Cursor.size_next_lt (c := c) (by simp [hNext])
  have hLe :=
    (ValueType.reaches_read spec.type key.text c').size_le
  rw [hNext] at hLt
  rw [hRead] at hLe
  exact Nat.lt_of_le_of_lt hLe hLt

/- Reading entries moves the cursor by its operations only. -/
theorem reaches_readFields
    (table : FieldTable)
    (fields : List Field)
    (c : Cursor) :
    c.Reaches (table.readFields fields c).2 := by
  fun_induction readFields table fields c with
  | case1 fields c c' h => exact .of_next h
  | case2 fields c key c' h hKind => exact .of_next h
  | case3 fields c key c' h hKind e hAccept => exact .of_next h
  | case4 fields c key c' h hKind spec hAccept e c'' hRead =>
      have hValue :=
        ValueType.reaches_read spec.type key.text c'
      rw [hRead] at hValue
      exact (Cursor.Reaches.of_next h).trans hValue
  | case5 fields c key c' h hKind spec hAccept v c'' hRead
      field ih =>
      have hValue :=
        ValueType.reaches_read spec.type key.text c'
      rw [hRead] at hValue
      exact ((Cursor.Reaches.of_next h).trans hValue).trans ih

end FieldTable

------------------------------------------------------------
-- Bodies
------------------------------------------------------------

namespace Body

/- Whether a body has a grammar of its own. -/
def isCustom : Body → Bool
  | custom _ => true
  | _ => false

/-
  Read the body of a block with some header up to and with
  its closing brace.
-/
def read
    (body : Body)
    (h : Header)
    (c : Cursor) : Reading (List Field) :=
  match body with
  | unstructured =>
      match c.skipToClose c.depth with
      | (true, c) => (.ok [], c)
      | (false, c) => (.error .unexpectedEof, c)
  | table t => t.readFields [] c
  | custom g => g.read h c

/- The header that a body leaves. -/
def header
    (body : Body)
    (h : Header)
    (c : Cursor) : Header :=
  match body with
  | custom g => g.header h c
  | _ => h

theorem reaches_read
    (body : Body)
    (h : Header)
    (c : Cursor) :
    c.Reaches (body.read h c).2 := by
  cases body with
  | unstructured =>
      have hSkip := Cursor.reaches_skipToClose c c.depth
      simp only [read]
      split <;> rename_i h <;> rwa [h] at hSkip
  | table t => exact t.reaches_readFields [] c
  | custom g => exact g.reaches h c

/- A body that leaves the header as it was. -/
def KeepsHeader (body : Body) : Prop :=
  ∀ (h : Header) (c : Cursor), body.header h c = h

/- Only grammars of their own change headers. -/
theorem keepsHeader_of_plain
    {body : Body}
    (hPlain : body.isCustom = false) :
    body.KeepsHeader := by
  intro h c
  cases body with
  | unstructured => rfl
  | table t => rfl
  | custom g => cases hPlain

end Body
end BlockScript
