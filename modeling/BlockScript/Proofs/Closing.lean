import BlockScript.Proofs.Simulation.Body

/-
  This file shows that reading a value or a table of fields
  never leaves the block it stands in: wherever the reading
  stops, the closing brace of the block is the one that would
  have been found without reading.

  Key definitions include:
    * `Stays`

  Key theorems include:
    * `ValueType.stays_read`
    * `FieldTable.stays_readFields`
-/

namespace BlockScript

------------------------------------------------------------
-- Nesting
------------------------------------------------------------

namespace Cursor

@[simp]
theorem depth_peek
    (c : Cursor) :
    c.peek.2.depth = c.depth := by
  unfold peek
  split <;> rfl

/- A token taken counts for the nesting. -/
theorem depth_next
    {c c' : Cursor}
    {t : Token}
    (hNext : c.next = (some t, c')) :
    c'.depth = depthAfter c.depth t.kind := by
  rcases hPeeked : c.peeked with _ | s
  · rcases hPull : c.pull with ⟨found, d⟩
    have hDepth : d.depth = c.depth := by
      have hSame := congrArg (fun p => p.2.depth) hPull
      exact hSame.symm
    rw [next_of_pull hPeeked hPull] at hNext
    cases found with
    | none => simp at hNext
    | some s =>
        simp only [Option.elim_some, Prod.mk.injEq,
          Option.some.injEq] at hNext
        obtain ⟨rfl, rfl⟩ := hNext
        simp [consume, hDepth]
  · simp only [next, hPeeked, Prod.mk.injEq,
      Option.some.injEq] at hNext
    obtain ⟨rfl, rfl⟩ := hNext
    rfl

theorem depthAfter_of_isScalar
    {kind : TokenKind}
    (depth : Nat)
    (hScalar : kind.isScalar = true) :
    depthAfter depth kind = depth := by
  cases kind <;> simp_all [depthAfter, TokenKind.isScalar]

------------------------------------------------------------
-- Skipping from Further On
------------------------------------------------------------

/- A look makes no difference to the skip. -/
theorem skipToClose_peek
    {c : Cursor}
    {bodyDepth : Nat}
    (hPositive : 0 < bodyDepth)
    (hOpen : bodyDepth ≤ c.depth) :
    c.peek.2.skipToClose bodyDepth
      = c.skipToClose bodyDepth := by
  rw [skipToClose_of_open hPositive (by simpa using hOpen),
    skipToClose_of_open hPositive hOpen, next_peek]

/- Nor does a token taken in the block. -/
theorem skipToClose_next
    {c c' : Cursor}
    {t : Token}
    {bodyDepth : Nat}
    (hPositive : 0 < bodyDepth)
    (hOpen : bodyDepth ≤ c.depth)
    (hNext : c.next = (some t, c')) :
    c'.skipToClose bodyDepth = c.skipToClose bodyDepth := by
  rw [skipToClose_of_open hPositive hOpen, hNext]

theorem skipToClose_of_none
    {c c' : Cursor}
    {bodyDepth : Nat}
    (hPositive : 0 < bodyDepth)
    (hOpen : bodyDepth ≤ c.depth)
    (hNext : c.next = (none, c')) :
    c.skipToClose bodyDepth = (false, c') := by
  rw [skipToClose_of_open hPositive hOpen, hNext]

end Cursor

------------------------------------------------------------
-- Readings in a Block
------------------------------------------------------------

/-
  A reading that began at `c` and has not left the block in
  whose body the nesting is `bodyDepth`. What it read well
  ends at the nesting `after`.
-/
inductive Stays
    {α : Type}
    (bodyDepth after : Nat)
    (c : Cursor) :
    Reading α → Prop where
  | ok
      {a : α}
      {c' : Cursor}
      (hSkip :
        c'.skipToClose bodyDepth = c.skipToClose bodyDepth)
      (hDepth : c'.depth = after) :
      Stays bodyDepth after c (.ok a, c')
  | malformed
      {cause : Malformation}
      {t : Token}
      {c' : Cursor}
      (hSkip :
        c'.skipToClose bodyDepth = c.skipToClose bodyDepth) :
      Stays bodyDepth after c (.error (.blame t cause), c')
  | eof
      {c' : Cursor}
      (hSkip : c.skipToClose bodyDepth = (false, c')) :
      Stays bodyDepth after c (.error .unexpectedEof, c')

/- A reading may begin further on in the block. -/
theorem Stays.of_skip
    {α : Type}
    {bodyDepth after : Nat}
    {c d : Cursor}
    {x : Reading α}
    (hSkip : d.skipToClose bodyDepth = c.skipToClose bodyDepth)
    (hStays : Stays bodyDepth after d x) :
    Stays bodyDepth after c x := by
  cases hStays with
  | ok hRest hDepth => exact .ok (hRest.trans hSkip) hDepth
  | malformed hRest => exact .malformed (hRest.trans hSkip)
  | eof hRest => exact .eof (hSkip.symm.trans hRest)

/- So may one that begins with a look. -/
theorem Stays.of_peek
    {α : Type}
    {bodyDepth after : Nat}
    {c d : Cursor}
    {found : Option Token}
    {x : Reading α}
    (hPositive : 0 < bodyDepth)
    (hOpen : bodyDepth ≤ c.depth)
    (hPeek : c.peek = (found, d))
    (hStays : Stays bodyDepth after d x) :
    Stays bodyDepth after c x := by
  have hSkip := Cursor.skipToClose_peek hPositive hOpen
  rw [hPeek] at hSkip
  exact hStays.of_skip hSkip

theorem depth_of_peek
    {c d : Cursor}
    {found : Option Token}
    (hPeek : c.peek = (found, d)) :
    d.depth = c.depth := by
  rw [← c.depth_peek, hPeek]

/- A look at the end of input ends a reading. -/
theorem Stays.eof_of_peek
    {α : Type}
    {bodyDepth after : Nat}
    {c d : Cursor}
    (hPositive : 0 < bodyDepth)
    (hOpen : bodyDepth ≤ c.depth)
    (hPeek : c.peek = (none, d)) :
    @Stays α bodyDepth after c (.error .unexpectedEof, d) :=
  .eof (Cursor.skipToClose_of_none hPositive hOpen
    (Cursor.next_of_peek_none hPeek))

------------------------------------------------------------
-- Values in a Block
------------------------------------------------------------

theorem ScalarType.stays_read
    {c : Cursor}
    {bodyDepth : Nat}
    (type : ScalarType)
    (key : String)
    (hPositive : 0 < bodyDepth)
    (hOpen : bodyDepth ≤ c.depth) :
    Stays bodyDepth c.depth c (type.read key c) := by
  unfold read
  rcases hPeek : c.peek with ⟨_ | t, d⟩
  · exact .eof_of_peek hPositive hOpen hPeek
  · have hDepth := depth_of_peek hPeek
    have hNext := Cursor.next_of_peek_some hPeek
    rw [← hDepth] at hOpen ⊢
    have hSkip :=
      Cursor.skipToClose_next hPositive hOpen hNext
    apply Stays.of_peek hPositive (hDepth ▸ hOpen) hPeek
    simp only
    split
    · rename_i hScalar
      have hSame : d.next.2.depth = d.depth := by
        rw [Cursor.depth_next hNext,
          Cursor.depthAfter_of_isScalar _ hScalar]
      split
      · exact .ok hSkip hSame
      · exact .malformed hSkip
    · exact .malformed rfl

/-
  The items of a list stand one level deeper than the value,
  and its closing brace leads back.
-/
theorem ValueType.stays_readItems
    {c : Cursor}
    {bodyDepth : Nat}
    (key : String)
    (items : List String)
    (hPositive : 0 < bodyDepth)
    (hOpen : bodyDepth < c.depth) :
    Stays bodyDepth (c.depth - 1) c (readItems key items c) := by
  fun_induction readItems key items c with
  | case1 items c d hNext =>
      exact .eof (Cursor.skipToClose_of_none hPositive
        (Nat.le_of_lt hOpen) hNext)
  | case2 items c t d hNext hKind =>
      have hSkip :=
        Cursor.skipToClose_next hPositive
          (Nat.le_of_lt hOpen) hNext
      have hDepth := Cursor.depth_next hNext
      rw [hKind] at hDepth
      exact .ok hSkip hDepth
  | case3 items c t d hNext hKind hScalar ih =>
      have hSkip :=
        Cursor.skipToClose_next hPositive
          (Nat.le_of_lt hOpen) hNext
      have hDepth : d.depth = c.depth := by
        rw [Cursor.depth_next hNext,
          Cursor.depthAfter_of_isScalar _ hScalar]
      rw [hDepth] at ih
      exact (ih hOpen).of_skip hSkip
  | case4 items c t d hNext hKind hScalar =>
      exact .malformed
        (Cursor.skipToClose_next hPositive
          (Nat.le_of_lt hOpen) hNext)

theorem ValueType.stays_readList
    {c : Cursor}
    {bodyDepth : Nat}
    (key : String)
    (hPositive : 0 < bodyDepth)
    (hOpen : bodyDepth ≤ c.depth) :
    Stays bodyDepth c.depth c (readList key c) := by
  unfold readList
  rcases hPeek : c.peek with ⟨_ | t, d⟩
  · exact .eof_of_peek hPositive hOpen hPeek
  · have hDepth := depth_of_peek hPeek
    have hNext := Cursor.next_of_peek_some hPeek
    rw [← hDepth] at hOpen ⊢
    have hSkip :=
      Cursor.skipToClose_next hPositive hOpen hNext
    apply Stays.of_peek hPositive (hDepth ▸ hOpen) hPeek
    simp only
    split
    · rename_i hKind
      have hDeeper : d.next.2.depth = d.depth + 1 := by
        rw [Cursor.depth_next hNext, hKind]
        rfl
      have hItems :=
        stays_readItems (c := d.next.2) key [] hPositive
          (by omega)
      rw [hDeeper, Nat.add_sub_cancel] at hItems
      exact hItems.of_skip hSkip
    · exact .malformed rfl

mutual

theorem ValueType.stays_read
    {c : Cursor}
    {bodyDepth : Nat}
    (type : ValueType)
    (key : String)
    (hPositive : 0 < bodyDepth)
    (hOpen : bodyDepth ≤ c.depth) :
    Stays bodyDepth c.depth c (type.read key c) := by
  cases type with
  | scalar type =>
      simp only [ValueType.read]
      exact type.stays_read key hPositive hOpen
  | list =>
      simp only [ValueType.read]
      exact stays_readList key hPositive hOpen
  | record parts =>
      have hParts := stays_readParts parts key hPositive hOpen
      simp only [ValueType.read]
      generalize readParts parts key c = x at hParts ⊢
      cases hParts with
      | ok hSkip hDepth => exact .ok hSkip hDepth
      | malformed hSkip => exact .malformed hSkip
      | eof hSkip => exact .eof hSkip

theorem ValueType.stays_readParts
    {c : Cursor}
    {bodyDepth : Nat}
    (parts : List ValueType)
    (key : String)
    (hPositive : 0 < bodyDepth)
    (hOpen : bodyDepth ≤ c.depth) :
    Stays bodyDepth c.depth c (readParts parts key c) := by
  cases parts with
  | nil =>
      simp only [readParts]
      exact .ok rfl rfl
  | cons type types =>
      have hFirst := stays_read type key hPositive hOpen
      simp only [readParts]
      generalize type.read key c = x at hFirst ⊢
      cases hFirst with
      | ok hSkip hDepth =>
          rename_i v d
          rw [← hDepth] at hOpen ⊢
          have hRest :=
            (stays_readParts types key hPositive hOpen).of_skip
              hSkip
          simp only
          generalize readParts types key d = y at hRest ⊢
          cases hRest with
          | ok hSkip hDepth => exact .ok hSkip hDepth
          | malformed hSkip => exact .malformed hSkip
          | eof hSkip => exact .eof hSkip
      | malformed hSkip => exact .malformed hSkip
      | eof hSkip => exact .eof hSkip

end

------------------------------------------------------------
-- Tables in a Block
------------------------------------------------------------

/- A key that is not accepted is blamed itself. -/
theorem FieldTable.accept_error
    {table : FieldTable}
    {fields : List Field}
    {key : Token}
    {e : BodyError}
    (hAccept : table.accept fields key = .error e) :
    ∃ cause, e = .blame key cause := by
  unfold accept at hAccept
  split at hAccept
  · split at hAccept
    · exact ⟨_, (Except.error.inj hAccept).symm⟩
    · split at hAccept
      · exact ⟨_, (Except.error.inj hAccept).symm⟩
      · simp at hAccept
  · exact ⟨_, (Except.error.inj hAccept).symm⟩

/- A key that is accepted is a word. -/
theorem FieldTable.isWord_of_accept
    {table : FieldTable}
    {fields : List Field}
    {key : Token}
    {spec : FieldSpec}
    (hAccept : table.accept fields key = .ok spec) :
    key.isWord = true := by
  unfold accept at hAccept
  split at hAccept
  · assumption
  · simp at hAccept

theorem depthAfter_of_isWord
    {t : Token}
    (depth : Nat)
    (hWord : t.isWord = true) :
    Cursor.depthAfter depth t.kind = depth := by
  unfold Token.isWord at hWord
  cases hKind : t.kind <;>
    simp_all [Cursor.depthAfter]

/-
  A table is read up to the brace that closes the block, or
  stops before it.
-/
theorem FieldTable.stays_readFields
    {c : Cursor}
    (table : FieldTable)
    (fields : List Field)
    (hPositive : 0 < c.depth) :
    Stays c.depth (c.depth - 1) c (table.readFields fields c) := by
  generalize hBody : c.depth = bodyDepth at *
  fun_induction readFields table fields c with
  | case1 fields c d hNext =>
      exact .eof (Cursor.skipToClose_of_none hPositive
        (Nat.le_of_eq hBody.symm) hNext)
  | case2 fields c key d hNext hKind =>
      have hDepth := Cursor.depth_next hNext
      rw [hKind, hBody] at hDepth
      exact .ok
        (Cursor.skipToClose_next hPositive
          (Nat.le_of_eq hBody.symm) hNext) hDepth
  | case3 fields c key d hNext hKind e hAccept =>
      obtain ⟨cause, rfl⟩ := accept_error hAccept
      exact .malformed
        (Cursor.skipToClose_next hPositive
          (Nat.le_of_eq hBody.symm) hNext)
  | case4 fields c key d hNext hKind spec hAccept e d' hRead =>
      have hSkip :=
        Cursor.skipToClose_next hPositive
          (Nat.le_of_eq hBody.symm) hNext
      have hDepth : d.depth = bodyDepth := by
        rw [Cursor.depth_next hNext,
          depthAfter_of_isWord _ (isWord_of_accept hAccept),
          hBody]
      have hValue :=
        (spec.type.stays_read key.text hPositive
          (Nat.le_of_eq hDepth.symm)).of_skip hSkip
      rw [hRead] at hValue
      cases hValue with
      | malformed hSkip => exact .malformed hSkip
      | eof hSkip => exact .eof hSkip
  | case5 fields c key d hNext hKind spec hAccept v d' hRead
      field ih =>
      have hSkip :=
        Cursor.skipToClose_next hPositive
          (Nat.le_of_eq hBody.symm) hNext
      have hDepth : d.depth = bodyDepth := by
        rw [Cursor.depth_next hNext,
          depthAfter_of_isWord _ (isWord_of_accept hAccept),
          hBody]
      have hValue :=
        (spec.type.stays_read key.text hPositive
          (Nat.le_of_eq hDepth.symm)).of_skip hSkip
      rw [hRead, hDepth] at hValue
      cases hValue with
      | ok hSkip hDepth => exact (ih hDepth).of_skip hSkip

end BlockScript
