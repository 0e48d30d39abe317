import BlockScript.Proofs.Problems
import BlockScript.Proofs.Taking

/-
  This file says which tokens a value of a type consists of,
  and shows that reading takes these tokens and no others,
  whatever comes after them.

  Key definitions include:
    * `ValueType.Denotes`
    * `Cursor.Moves`

  Key theorems include:
    * `ValueType.Denotes.depth_eq`
    * `ValueType.moves_read`
-/

namespace BlockScript

------------------------------------------------------------
-- Tokens of Values
------------------------------------------------------------

namespace ValueType

mutual

/-
  Tokens that are a value of a type: one token for a scalar
  type, items in braces for a list, and the tokens of the
  parts in a row for a record.
-/
inductive Denotes :
    ValueType → List Token → Value → Prop where
  | scalar
      {type : ScalarType}
      {t : Token}
      {v : Value}
      (hScalar : t.kind.isScalar = true)
      (hConvert : type.convert? t.text = some v) :
      Denotes (.scalar type) [t] v
  | list
      {l r : Token}
      {items : List Token}
      (hLeft : l.kind = .lBrace)
      (hItems : ∀ t ∈ items, t.kind.isScalar = true)
      (hRight : r.kind = .rBrace) :
      Denotes .list (l :: (items ++ [r]))
        (.list (items.map Token.text))
  | record
      {types : List ValueType}
      {ts : List Token}
      {vs : List Value}
      (hParts : DenotesParts types ts vs) :
      Denotes (.record types) ts (.record vs)

/- Tokens that are values of several types in a row. -/
inductive DenotesParts :
    List ValueType → List Token → List Value → Prop where
  | nil : DenotesParts [] [] []
  | cons
      {type : ValueType}
      {types : List ValueType}
      {ts us : List Token}
      {v : Value}
      {vs : List Value}
      (hFirst : Denotes type ts v)
      (hRest : DenotesParts types us vs) :
      DenotesParts (type :: types) (ts ++ us) (v :: vs)

end

end ValueType

namespace Cursor

/- Tokens without braces leave the nesting as it is. -/
theorem depth_of_scalars
    {ts : List Token}
    (depth : Nat)
    (hScalars : ∀ t ∈ ts, t.kind.isScalar = true) :
    ts.foldl (fun d t => depthAfter d t.kind) depth
      = depth := by
  induction ts with
  | nil => rfl
  | cons t ts ih =>
      have hFirst := hScalars t List.mem_cons_self
      rw [List.foldl_cons, depthAfter_of_isScalar _ hFirst]
      apply ih
      intro s hs
      exact hScalars s (List.mem_cons_of_mem t hs)

end Cursor

namespace ValueType

mutual

/- The tokens of a value leave the nesting as it is. -/
theorem Denotes.depth_eq
    {type : ValueType}
    {ts : List Token}
    {v : Value}
    (depth : Nat)
    (hDenotes : Denotes type ts v) :
    ts.foldl (fun d t => Cursor.depthAfter d t.kind) depth
      = depth := by
  cases hDenotes with
  | scalar hScalar hConvert =>
      exact Cursor.depthAfter_of_isScalar depth hScalar
  | list hLeft hItems hRight =>
      rw [List.foldl_cons, List.foldl_append,
        Cursor.depth_of_scalars _ hItems, hLeft,
        List.foldl_cons, hRight]
      rfl
  | record hParts => exact hParts.depth_eq depth

theorem DenotesParts.depth_eq
    {types : List ValueType}
    {ts : List Token}
    {vs : List Value}
    (depth : Nat)
    (hDenotes : DenotesParts types ts vs) :
    ts.foldl (fun d t => Cursor.depthAfter d t.kind) depth
      = depth := by
  cases hDenotes with
  | nil => rfl
  | cons hFirst hRest =>
      rw [List.foldl_append, hFirst.depth_eq depth]
      exact hRest.depth_eq depth

end

end ValueType

------------------------------------------------------------
-- Moves
------------------------------------------------------------

namespace Cursor

/-
  A cursor that has become another by taking some tokens,
  with nothing reported but problems with the text.
-/
structure Moves
    (c : Cursor)
    (taken : List Token)
    (d : Cursor) : Prop where
  takes : c.Takes taken [] d
  found : d.found = c.found

namespace Moves

variable {c d e : Cursor}

theorem refl
    (c : Cursor) :
    c.Moves [] c where
  takes := Takes.refl c
  found := rfl

theorem trans
    {ts us : List Token}
    (hFirst : c.Moves ts d)
    (hSecond : d.Moves us e) :
    c.Moves (ts ++ us) e where
  takes := hFirst.takes.trans hSecond.takes
  found := hSecond.found.trans hFirst.found

/- What is left after the tokens that were in front. -/
theorem tokens_eq
    {ts rest : List Token}
    (hMoves : c.Moves ts d)
    (hTokens : c.tokens = ts ++ rest) :
    d.tokens = rest := by
  have hTaken := hMoves.takes.tokens
  rw [hTokens] at hTaken
  exact (List.append_cancel_left hTaken).symm

end Moves

theorem moves_next
    {c : Cursor}
    {t : Token}
    {ts : List Token}
    (hTokens : c.tokens = t :: ts) :
    ∃ d, c.next = (some t, d) ∧ c.Moves [t] d := by
  obtain ⟨d, hNext, hTakes, -⟩ := takes_next hTokens
  have hFound := c.found_next
  rw [hNext] at hFound
  exact ⟨d, hNext, hTakes, hFound⟩

/- The token in front is the one looked at. -/
theorem peek_of_tokens
    {c : Cursor}
    {t : Token}
    {ts : List Token}
    (hTokens : c.tokens = t :: ts) :
    c.peek = (some t, c.peek.2) := by
  have hFirst : c.peek.1 = some t := by
    rw [peek_fst, hTokens]
    rfl
  rw [← hFirst]

end Cursor

------------------------------------------------------------
-- Reading
------------------------------------------------------------

/- One token that is a value is read as that value. -/
theorem ScalarType.moves_read
    {type : ScalarType}
    {t : Token}
    {v : Value}
    {c : Cursor}
    {rest : List Token}
    (key : String)
    (hScalar : t.kind.isScalar = true)
    (hConvert : type.convert? t.text = some v)
    (hTokens : c.tokens = t :: rest) :
    ∃ d, type.read key c = (.ok v, d) ∧ c.Moves [t] d := by
  obtain ⟨d, hNext, hMoves⟩ := Cursor.moves_next hTokens
  refine ⟨d, ?_, hMoves⟩
  rw [read, Cursor.peek_of_tokens hTokens]
  simp only [hScalar, if_true, hConvert, Cursor.next_peek,
    hNext]

namespace ValueType

/- Items are read up to the brace that closes the list. -/
theorem moves_readItems
    {items rest : List Token}
    {r : Token}
    (key : String)
    (seen : List String)
    (hItems : ∀ t ∈ items, t.kind.isScalar = true)
    (hRight : r.kind = .rBrace)
    {c : Cursor}
    (hTokens : c.tokens = items ++ r :: rest) :
    ∃ d,
      readItems key seen c
          = (.ok (.list (seen.reverse ++ items.map Token.text)),
              d)
        ∧ c.Moves (items ++ [r]) d := by
  induction items generalizing seen c with
  | nil =>
      obtain ⟨d, hNext, hMoves⟩ := Cursor.moves_next hTokens
      refine ⟨d, ?_, hMoves⟩
      rw [readItems_eq, hNext]
      simp only [hRight, if_true, List.map_nil, List.append_nil]
  | cons t items ih =>
      have hScalar := hItems t List.mem_cons_self
      have hBrace : t.kind ≠ .rBrace := by
        intro hKind
        rw [hKind] at hScalar
        simp [TokenKind.isScalar] at hScalar
      obtain ⟨d, hNext, hMoves⟩ := Cursor.moves_next hTokens
      obtain ⟨e, hRead, hRest⟩ :=
        ih (t.text :: seen)
          (fun s hs => hItems s (List.mem_cons_of_mem t hs))
          (hMoves.tokens_eq hTokens)
      refine ⟨e, ?_, hMoves.trans hRest⟩
      rw [readItems_eq, hNext]
      simp only [hBrace, if_false, hScalar, if_true, hRead,
        List.reverse_cons, List.append_assoc,
        List.singleton_append, List.map_cons]

/- A list is read with its braces. -/
theorem moves_readList
    {items rest : List Token}
    {l r : Token}
    {c : Cursor}
    (key : String)
    (hLeft : l.kind = .lBrace)
    (hItems : ∀ t ∈ items, t.kind.isScalar = true)
    (hRight : r.kind = .rBrace)
    (hTokens : c.tokens = l :: (items ++ r :: rest)) :
    ∃ d,
      readList key c
          = (.ok (.list (items.map Token.text)), d)
        ∧ c.Moves (l :: (items ++ [r])) d := by
  obtain ⟨d, hNext, hMoves⟩ := Cursor.moves_next hTokens
  obtain ⟨e, hRead, hRest⟩ :=
    moves_readItems key [] hItems hRight
      (hMoves.tokens_eq hTokens)
  refine ⟨e, ?_, hMoves.trans hRest⟩
  rw [readList, Cursor.peek_of_tokens hTokens]
  simp only [hLeft, if_true, Cursor.next_peek, hNext, hRead,
    List.reverse_nil, List.nil_append]

mutual

/-
  The tokens of a value are read as that value, whatever
  comes after them.
-/
theorem moves_read
    (type : ValueType)
    (key : String)
    {c : Cursor}
    {ts rest : List Token}
    {v : Value}
    (hDenotes : Denotes type ts v)
    (hTokens : c.tokens = ts ++ rest) :
    ∃ d, type.read key c = (.ok v, d) ∧ c.Moves ts d := by
  cases type with
  | scalar type =>
      cases hDenotes with
      | scalar hScalar hConvert =>
          simp only [read]
          exact ScalarType.moves_read key hScalar hConvert
            hTokens
  | list =>
      cases hDenotes with
      | list hLeft hItems hRight =>
          rw [List.cons_append, List.append_assoc] at hTokens
          simp only [read]
          exact moves_readList key hLeft hItems hRight hTokens
  | record types =>
      cases hDenotes with
      | record hParts =>
          obtain ⟨d, hRead, hMoves⟩ :=
            moves_readParts types key hParts hTokens
          refine ⟨d, ?_, hMoves⟩
          simp only [read, hRead]

theorem moves_readParts
    (types : List ValueType)
    (key : String)
    {c : Cursor}
    {ts rest : List Token}
    {vs : List Value}
    (hDenotes : DenotesParts types ts vs)
    (hTokens : c.tokens = ts ++ rest) :
    ∃ d,
      readParts types key c = (.ok vs, d) ∧ c.Moves ts d := by
  cases types with
  | nil =>
      cases hDenotes with
      | nil => exact ⟨c, by simp only [readParts], .refl c⟩
  | cons type types =>
      cases hDenotes with
      | cons hFirst hRest =>
          rw [List.append_assoc] at hTokens
          obtain ⟨d, hRead, hMoves⟩ :=
            moves_read type key hFirst hTokens
          obtain ⟨e, hReads, hMoves'⟩ :=
            moves_readParts types key hRest
              (hMoves.tokens_eq hTokens)
          refine ⟨e, ?_, hMoves.trans hMoves'⟩
          simp only [readParts, hRead, hReads]

end

end ValueType
end BlockScript
