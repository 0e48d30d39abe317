import BlockScript.Proofs.RoundTrip

/-
  This file compares a reader with a language of tokens, each
  member of which stands for a result. A reader is to read
  every member, whatever comes after it, and to stop at the
  first token after which no member is possible any more.

  Key definitions include:
    * `Excludes`
    * `Judges`
    * `Recognizes`

  Key theorems include:
    * `Judges.after`
    * `Judges.first`
    * `ReadsMembers.unique`
    * `Recognizes.ok_iff`
    * `ValueType.recognizes_read`
-/

namespace BlockScript

------------------------------------------------------------
-- Languages and Readers
------------------------------------------------------------

/-
  No member of the language goes on from these tokens, and
  none ends within them.
-/
def Excludes
    {α : Type}
    (L : List Token → α → Prop)
    (ts : List Token) : Prop :=
  ∀ us rest more a,
    L us a → us ++ rest ≠ ts ++ more

/-
  What a reader should make of the tokens of a cursor. Either
  a member is in front and is taken, or the tokens only begin
  one and all are taken, or a token is to blame: those before
  it begin a member, and with it they do not. That token is
  the last one taken, or the first one left.
-/
inductive Judges
    {α : Type}
    (L : List Token → α → Prop)
    (c : Cursor) :
    Reading α → Prop where
  | member
      {ts : List Token}
      {a : α}
      {d : Cursor}
      (hMember : L ts a)
      (hMoves : c.Moves ts d) :
      Judges L c (.ok a, d)
  | cut
      {more : List Token}
      {a : α}
      {d : Cursor}
      (hMember : L (c.tokens ++ more) a)
      (hMore : more ≠ [])
      (hMoves : c.Moves c.tokens d) :
      Judges L c (.error .unexpectedEof, d)
  | wrong
      {front back more : List Token}
      {t : Token}
      {a : α}
      {cause : Malformation}
      {d : Cursor}
      (hTokens : c.tokens = front ++ t :: back)
      (hMember : L (front ++ more) a)
      (hExcludes : Excludes L (front ++ [t]))
      (hMoves : c.Moves front d ∨ c.Moves (front ++ [t]) d) :
      Judges L c (.error (.blame t cause), d)

/- A reader that reads every member, whatever follows it. -/
def ReadsMembers
    {α : Type}
    (L : List Token → α → Prop)
    (reader : Cursor → Reading α) : Prop :=
  ∀ {c : Cursor} {ts rest : List Token} {a : α},
    L ts a →
      c.tokens = ts ++ rest →
        ∃ d, reader c = (.ok a, d) ∧ c.Moves ts d

/-
  Input begins with one member at most: a reader that reads
  every member would have to read both.
-/
theorem ReadsMembers.unique
    {α : Type}
    {L : List Token → α → Prop}
    {reader : Cursor → Reading α}
    {ts us rest more : List Token}
    {a b : α}
    (hReads : ReadsMembers L reader)
    (hFirst : L ts a)
    (hSecond : L us b)
    (hSame : ts ++ rest = us ++ more) :
    ts = us ∧ a = b := by
  have hTokens :
      (Cursor.ofTokens (ts ++ rest)).tokens = ts ++ rest :=
    rfl
  rcases hReads hFirst hTokens with ⟨d, hRead, hMoves⟩
  rcases hReads hSecond (hTokens.trans hSame) with
    ⟨e, hRead', hMoves'⟩
  rw [hRead, Prod.mk.injEq, Except.ok.injEq] at hRead'
  rcases hRead' with ⟨rfl, rfl⟩
  constructor
  · have hTaken := hMoves.takes.tokens
    rw [hMoves'.takes.tokens] at hTaken
    exact (List.append_cancel_right hTaken).symm
  · rfl

/-
  A reader that reads the members of a language and judges
  all other input by them.
-/
structure Recognizes
    {α : Type}
    (L : List Token → α → Prop)
    (reader : Cursor → Reading α) : Prop where
  reads : ReadsMembers L reader
  judges : ∀ c : Cursor, Judges L c (reader c)

namespace Recognizes

variable {α : Type}
variable {L : List Token → α → Prop}
variable {reader : Cursor → Reading α}

/- Tokens are taken for a result if they are a member. -/
theorem ok_iff
    {ts : List Token}
    (hRecognizes : Recognizes L reader)
    (c : Cursor) :
    (∃ a d, reader c = (.ok a, d) ∧ c.Moves ts d)
      ↔ ts <+: c.tokens ∧ ∃ a, L ts a := by
  constructor
  · rintro ⟨a, d, hRead, hMoves⟩
    have hTaken := hMoves.takes.tokens
    refine ⟨⟨d.tokens, hTaken.symm⟩, a, ?_⟩
    have hJudges := hRecognizes.judges c
    rw [hRead] at hJudges
    cases hJudges with
    | member hMember hMoves' =>
        rw [hMoves'.takes.tokens] at hTaken
        rw [← List.append_cancel_right hTaken]
        exact hMember
  · rintro ⟨⟨rest, hTokens⟩, a, hMember⟩
    rcases hRecognizes.reads hMember hTokens.symm with
      ⟨d, hRead, hMoves⟩
    exact ⟨a, d, hRead, hMoves⟩

/-
  Where no member is in front, input has ended too early if
  its tokens begin one.
-/
theorem eof_of_begins
    {c : Cursor}
    (hRecognizes : Recognizes L reader)
    (hNone : ∀ ts a, ts <+: c.tokens → ¬ L ts a)
    (hBegins : ∃ more a, L (c.tokens ++ more) a) :
    ∃ d,
      reader c = (.error .unexpectedEof, d)
        ∧ c.Moves c.tokens d := by
  have hJudges := hRecognizes.judges c
  rcases hRead : reader c with ⟨x, d⟩
  rw [hRead] at hJudges
  cases hJudges with
  | member hMember hMoves =>
      exact absurd hMember
        (hNone _ _ ⟨_, hMoves.takes.tokens.symm⟩)
  | cut _ _ hMoves => exact ⟨d, rfl, hMoves⟩
  | @wrong front back _ t _ _ _ hTokens _ hExcludes _ =>
      rcases hBegins with ⟨more, a, hMember⟩
      have hSame :
          c.tokens ++ more ++ []
            = front ++ [t] ++ (back ++ more) := by
        simp [hTokens]
      exact absurd hSame (hExcludes _ _ _ a hMember)

/- If they do not, the first token is blamed that shows it. -/
theorem blames_of_not_begins
    {c : Cursor}
    (hRecognizes : Recognizes L reader)
    (hNone : ∀ ts a, ts <+: c.tokens → ¬ L ts a)
    (hBegins : ¬ ∃ more a, L (c.tokens ++ more) a) :
    ∃ front t back cause d,
      c.tokens = front ++ t :: back
        ∧ (∃ more a, L (front ++ more) a)
        ∧ (¬ ∃ more a, L (front ++ [t] ++ more) a)
        ∧ reader c = (.error (.malformed cause (some t)), d)
        ∧ (c.Moves front d ∨ c.Moves (front ++ [t]) d) := by
  have hJudges := hRecognizes.judges c
  rcases hRead : reader c with ⟨x, d⟩
  rw [hRead] at hJudges
  cases hJudges with
  | member hMember hMoves =>
      exact absurd hMember
        (hNone _ _ ⟨_, hMoves.takes.tokens.symm⟩)
  | cut hMember _ _ => exact absurd ⟨_, _, hMember⟩ hBegins
  | wrong hTokens hMember hExcludes hMoves =>
      refine ⟨_, _, _, _, d, hTokens, ⟨_, _, hMember⟩, ?_, rfl,
        hMoves⟩
      rintro ⟨more, a, hLonger⟩
      exact hExcludes _ [] more a hLonger (List.append_nil _)

end Recognizes

------------------------------------------------------------
-- Reading in Parts
------------------------------------------------------------

namespace Cursor

/- A look moves nothing. -/
theorem moves_peek
    (c : Cursor) :
    c.Moves [] c.peek.2 where
  takes := c.takes_peek
  found := c.found_peek

theorem peek_of_tokens_nil
    {c : Cursor}
    (hEnd : c.tokens = []) :
    c.peek = (none, c.peek.2) := by
  have hFirst : c.peek.1 = none := by
    rw [peek_fst, hEnd]
    rfl
  rw [← hFirst]

end Cursor

namespace Judges

variable {α β : Type}
variable {L : List Token → β → Prop}
variable {L' : List Token → α → Prop}
variable {c d : Cursor}

/-
  What is judged after some tokens is judged from the start,
  if every member that agrees with these tokens has them in
  front.
-/
theorem after
    {ts : List Token}
    {x : Reading α}
    (f : α → β)
    (hMoves : c.Moves ts d)
    (hAdd : ∀ us a, L' us a → L (ts ++ us) (f a))
    (hSplit :
      ∀ us rest more b,
        L us b →
          us ++ rest = ts ++ more →
            ∃ vs a, us = ts ++ vs ∧ L' vs a)
    (hJudges : Judges L' d x) :
    Judges L c (x.1.map f, x.2) := by
  have hTaken := hMoves.takes.tokens
  cases hJudges with
  | member hMember hRest =>
      exact .member (hAdd _ _ hMember) (hMoves.trans hRest)
  | cut hMember hMore hRest =>
      have hAll := hMoves.trans hRest
      rw [← hTaken] at hAll
      have hWhole := hAdd _ _ hMember
      rw [← List.append_assoc, ← hTaken] at hWhole
      exact .cut hWhole hMore hAll
  | @wrong front back more t a cause e hTokens hMember
      hExcludes hRest =>
      have hWhole := hAdd _ _ hMember
      rw [← List.append_assoc] at hWhole
      have hFound : c.tokens = (ts ++ front) ++ t :: back := by
        rw [hTaken, hTokens, List.append_assoc]
      refine .wrong hFound hWhole ?_ ?_
      · intro us rest more' b hLong hSame
        rw [List.append_assoc, List.append_assoc] at hSame
        rcases hSplit us rest _ b hLong hSame with
          ⟨vs, a', rfl, hShort⟩
        rw [List.append_assoc] at hSame
        apply hExcludes vs rest more' a' hShort
        rw [List.append_assoc]
        exact List.append_cancel_left hSame
      · rw [List.append_assoc]
        exact hRest.imp hMoves.trans hMoves.trans

/-
  A failure in the first part is a failure of the whole, if
  every first part can be completed.
-/
theorem first
    {e : BodyError}
    (hAdd : ∀ us a, L' us a → ∃ more b, L (us ++ more) b)
    (hSplit :
      ∀ us b,
        L us b → ∃ vs rest a, us = vs ++ rest ∧ L' vs a)
    (hJudges : Judges L' c (.error e, d)) :
    Judges L c (.error e, d) := by
  cases hJudges with
  | cut hMember hMore hMoves =>
      rcases hAdd _ _ hMember with ⟨more', b, hWhole⟩
      rw [List.append_assoc] at hWhole
      apply Judges.cut hWhole _ hMoves
      simp [hMore]
  | wrong hTokens hMember hExcludes hMoves =>
      rcases hAdd _ _ hMember with ⟨more', b, hWhole⟩
      rw [List.append_assoc] at hWhole
      refine .wrong hTokens hWhole ?_ hMoves
      intro us rest more b' hLong hSame
      rcases hSplit us b' hLong with ⟨vs, rest', a, rfl, hShort⟩
      rw [List.append_assoc] at hSame
      exact hExcludes vs _ more a hShort hSame

/- Input ended where some member was still possible. -/
theorem ended
    {ts : List Token}
    {b : β}
    (hEnd : c.tokens = [])
    (hMember : L ts b)
    (hSome : ts ≠ []) :
    Judges L c (.error .unexpectedEof, c.peek.2) := by
  have hWhole : L (c.tokens ++ ts) b := by
    rw [hEnd]
    exact hMember
  apply Judges.cut hWhole hSome
  rw [hEnd]
  exact c.moves_peek

/- The first token already is in no member. -/
theorem atFirst
    {t : Token}
    {back ts : List Token}
    {b : β}
    {cause : Malformation}
    (hTokens : c.tokens = t :: back)
    (hMember : L ts b)
    (hExcludes : Excludes L [t])
    (hMoves : c.Moves [] d ∨ c.Moves [t] d) :
    Judges L c (.error (.blame t cause), d) := by
  have hWhole : L ([] ++ ts) b := hMember
  have hFound : c.tokens = [] ++ t :: back := hTokens
  exact .wrong hFound hWhole hExcludes hMoves

end Judges

------------------------------------------------------------
-- Values of Every Type
------------------------------------------------------------

namespace ScalarType

/- Some value of a scalar type. -/
def sample : ScalarType → Value
  | int => .int 0
  | float => .float zero
  | bool => .bool true
  | string => .string ""
  | translation => .string ""
  | vec2 => .vec2 zero zero
  | vec3 => .vec3 zero zero zero
  | vec4 => .vec4 zero zero zero zero
where
  zero : Number.Single := .ofMagnitude false 0

theorem admits_sample
    (type : ScalarType) :
    type.admits type.sample = true := by
  cases type <;> decide

end ScalarType

namespace ValueType

/- Some token that closes a list. -/
def brace : Token :=
  { kind := .rBrace,
    text := "\x7d",
    span := { start := 0, stop := 0 },
    location := Location.first }

/- A scalar type has values, each of which is one token. -/
theorem exists_denotes_scalar
    (type : ScalarType) :
    ∃ t v, Denotes (.scalar type) [t] v := by
  rcases ScalarType.convert?_of_admits type.admits_sample with
    ⟨x, -, hScalar, hConvert⟩
  refine ⟨{ brace with kind := x.kind, text := x.text },
    type.sample, ?_⟩
  exact .scalar hScalar hConvert

/- The empty list. -/
theorem exists_denotes_list :
    ∃ ts v, Denotes .list ts v ∧ ts ≠ [] := by
  have hEmpty : ∀ t ∈ ([] : List Token), t.kind.isScalar = true :=
    by simp
  exact ⟨{ brace with kind := .lBrace } :: ([] ++ [brace]),
    .list [], .list rfl hEmpty rfl, by simp⟩

mutual

/- Every type has values. -/
theorem exists_denotes
    (type : ValueType) :
    ∃ ts v, Denotes type ts v := by
  cases type with
  | scalar type =>
      rcases exists_denotes_scalar type with ⟨t, v, hDenotes⟩
      exact ⟨[t], v, hDenotes⟩
  | list =>
      rcases exists_denotes_list with ⟨ts, v, hDenotes, -⟩
      exact ⟨ts, v, hDenotes⟩
  | record types =>
      rcases exists_denotesParts types with ⟨ts, vs, hParts⟩
      exact ⟨ts, .record vs, .record hParts⟩

theorem exists_denotesParts
    (types : List ValueType) :
    ∃ ts vs, DenotesParts types ts vs := by
  cases types with
  | nil => exact ⟨[], [], .nil⟩
  | cons type types =>
      rcases exists_denotes type with ⟨ts, v, hFirst⟩
      rcases exists_denotesParts types with ⟨us, vs, hRest⟩
      exact ⟨ts ++ us, v :: vs, .cons hFirst hRest⟩

end

end ValueType

------------------------------------------------------------
-- Single Tokens
------------------------------------------------------------

/- One token is judged by its kind and its text. -/
theorem ScalarType.judges_read
    (type : ScalarType)
    (key : String)
    (c : Cursor) :
    Judges (ValueType.Denotes (.scalar type)) c
      (type.read key c) := by
  rcases ValueType.exists_denotes_scalar type with
    ⟨s, w, hSome⟩
  rcases hTokens : c.tokens with _ | ⟨t, ts⟩
  · rw [read, Cursor.peek_of_tokens_nil hTokens]
    exact .ended hTokens hSome (by simp)
  · rcases Cursor.moves_next hTokens with ⟨d, hNext, hMoves⟩
    rw [read, Cursor.peek_of_tokens hTokens]
    simp only [Cursor.next_peek, hNext]
    by_cases hScalar : t.kind.isScalar = true
    · rw [if_pos hScalar]
      rcases hConvert : type.convert? t.text with _ | v
      · refine .atFirst hTokens hSome ?_ (.inr hMoves)
        intro us rest more a hDenotes hSame
        cases hDenotes with
        | scalar _ hOther =>
            simp only [List.singleton_append,
              List.cons.injEq] at hSame
            rw [hSame.1, hConvert] at hOther
            simp at hOther
      · exact .member (.scalar hScalar hConvert) hMoves
    · rw [if_neg hScalar]
      refine .atFirst hTokens hSome ?_ (.inl c.moves_peek)
      intro us rest more a hDenotes hSame
      cases hDenotes with
      | scalar hOther _ =>
          simp only [List.singleton_append,
            List.cons.injEq] at hSame
          rw [hSame.1] at hOther
          exact hScalar hOther

------------------------------------------------------------
-- Lists
------------------------------------------------------------

namespace ValueType

/-
  Items up to the brace that closes their list, after those
  in `seen`, last first.
-/
def ItemsAfter
    (seen : List String)
    (ts : List Token)
    (v : Value) : Prop :=
  ∃ items r,
    (∀ t ∈ items, t.kind.isScalar = true)
      ∧ r.kind = .rBrace
      ∧ ts = items ++ [r]
      ∧ v = .list (seen.reverse ++ items.map Token.text)

theorem itemsAfter_brace
    {r : Token}
    (seen : List String)
    (hRight : r.kind = .rBrace) :
    ItemsAfter seen [r] (.list seen.reverse) :=
  ⟨[], r, by simp, hRight, rfl, by simp⟩

/- An item in front is an item seen. -/
theorem itemsAfter_cons
    {t : Token}
    {ts : List Token}
    {v : Value}
    {seen : List String}
    (hScalar : t.kind.isScalar = true) :
    ItemsAfter seen (t :: ts) v
      ↔ ItemsAfter (t.text :: seen) ts v := by
  constructor
  · rintro ⟨_ | ⟨s, items⟩, r, hItems, hRight, hTokens, rfl⟩
    · simp only [List.nil_append, List.cons.injEq] at hTokens
      rw [hTokens.1, hRight] at hScalar
      simp [TokenKind.isScalar] at hScalar
    · simp only [List.cons_append, List.cons.injEq] at hTokens
      rcases hTokens with ⟨rfl, rfl⟩
      refine ⟨items, r, ?_, hRight, rfl, by simp⟩
      intro u hu
      exact hItems u (List.mem_cons_of_mem t hu)
  · rintro ⟨items, r, hItems, hRight, rfl, rfl⟩
    refine ⟨t :: items, r, ?_, hRight, rfl, by simp⟩
    intro u hu
    rcases List.mem_cons.mp hu with rfl | hu
    · exact hScalar
    · exact hItems u hu

/- Items end with a brace. -/
theorem ItemsAfter.ne_nil
    {seen : List String}
    {ts : List Token}
    {v : Value}
    (hItems : ItemsAfter seen ts v) :
    ts ≠ [] := by
  rcases hItems with ⟨items, r, -, -, rfl, -⟩
  simp

/- A member that agrees with a token has it in front. -/
theorem cons_of_append
    {us rest more : List Token}
    {t : Token}
    (hSome : us ≠ [])
    (hSame : us ++ rest = [t] ++ more) :
    ∃ vs, us = t :: vs := by
  cases us with
  | nil => exact absurd rfl hSome
  | cons u us =>
      simp only [List.cons_append, List.cons.injEq] at hSame
      exact ⟨us, by rw [hSame.1]⟩

/-
  The induction is on the tokens left: an item moves from
  there to those seen.
-/
theorem judges_readItems
    (key : String)
    (seen : List String)
    (c : Cursor) :
    Judges (ItemsAfter seen) c (readItems key seen c) := by
  have hSome := itemsAfter_brace (r := brace) seen rfl
  generalize hTokens : c.tokens = ts
  induction ts generalizing seen c with
  | nil =>
      rw [readItems_eq, Cursor.next_of_tokens_nil hTokens]
      exact .ended hTokens hSome (by simp)
  | cons t ts ih =>
      rcases Cursor.moves_next hTokens with ⟨d, hNext, hMoves⟩
      rw [readItems_eq, hNext]
      by_cases hRight : t.kind = .rBrace
      · simp only [if_pos hRight]
        exact .member (itemsAfter_brace seen hRight) hMoves
      · by_cases hScalar : t.kind.isScalar = true
        · simp only [if_neg hRight, if_pos hScalar]
          have hRest :=
            ih (t.text :: seen) d (itemsAfter_brace _ rfl)
              (hMoves.tokens_eq hTokens)
          have hWhole :=
            Judges.after (L := ItemsAfter seen) id hMoves
              (fun us a => (itemsAfter_cons hScalar).mpr)
              (by
                intro us rest more b hItems hSame
                rcases cons_of_append hItems.ne_nil hSame with
                  ⟨vs, rfl⟩
                exact ⟨vs, b, rfl,
                  (itemsAfter_cons hScalar).mp hItems⟩)
              hRest
          rw [Except.map_id] at hWhole
          exact hWhole
        · simp only [if_neg hRight, if_neg hScalar]
          refine .atFirst hTokens hSome ?_ (.inr hMoves)
          rintro us rest more a
            ⟨_ | ⟨s, items⟩, r, hItems, hBrace, rfl, -⟩ hSame
          · simp only [List.nil_append, List.singleton_append,
              List.cons.injEq] at hSame
            exact hRight (hSame.1 ▸ hBrace)
          · simp only [List.cons_append, List.nil_append,
              List.cons.injEq] at hSame
            exact hScalar
              (hSame.1 ▸ hItems s List.mem_cons_self)

/- A list is its items after the opening brace. -/
theorem denotes_list_iff
    {ts : List Token}
    {v : Value} :
    Denotes .list ts v
      ↔ ∃ l us,
          l.kind = .lBrace
            ∧ ts = l :: us
            ∧ ItemsAfter [] us v := by
  constructor
  · intro hDenotes
    cases hDenotes with
    | list hLeft hItems hRight =>
        exact ⟨_, _, hLeft, rfl, _, _, hItems, hRight, rfl, rfl⟩
  · rintro ⟨l, us, hLeft, rfl, items, r, hItems, hRight, rfl, rfl⟩
    exact Denotes.list hLeft hItems hRight

theorem judges_readList
    (key : String)
    (c : Cursor) :
    Judges (Denotes .list) c (readList key c) := by
  rcases exists_denotes_list with ⟨ts, w, hSome, hNonempty⟩
  rcases hTokens : c.tokens with _ | ⟨t, ts⟩
  · rw [readList, Cursor.peek_of_tokens_nil hTokens]
    exact .ended hTokens hSome hNonempty
  · rcases Cursor.moves_next hTokens with ⟨d, hNext, hMoves⟩
    rw [readList, Cursor.peek_of_tokens hTokens]
    simp only [Cursor.next_peek, hNext]
    by_cases hLeft : t.kind = .lBrace
    · rw [if_pos hLeft]
      have hWhole :=
        Judges.after (L := Denotes .list) id hMoves
          (fun us a hItems =>
            denotes_list_iff.mpr ⟨t, us, hLeft, rfl, hItems⟩)
          (by
            intro us rest more b hDenotes hSame
            rcases denotes_list_iff.mp hDenotes with
              ⟨l, vs, -, rfl, hItems⟩
            simp only [List.cons_append,
              List.cons.injEq] at hSame
            exact ⟨vs, b, by rw [hSame.1]; rfl, hItems⟩)
          (judges_readItems key [] d)
      rw [Except.map_id] at hWhole
      exact hWhole
    · rw [if_neg hLeft]
      refine .atFirst hTokens hSome ?_ (.inl c.moves_peek)
      intro us rest more a hDenotes hSame
      rcases denotes_list_iff.mp hDenotes with
        ⟨l, vs, hOther, rfl, -⟩
      simp only [List.cons_append, List.cons.injEq] at hSame
      exact hLeft (hSame.1 ▸ hOther)

------------------------------------------------------------
-- Records
------------------------------------------------------------

/- Input begins with one value of a type at most. -/
theorem Denotes.unique
    {type : ValueType}
    {ts us rest more : List Token}
    {v w : Value}
    (hFirst : Denotes type ts v)
    (hSecond : Denotes type us w)
    (hSame : ts ++ rest = us ++ more) :
    ts = us ∧ v = w :=
  ReadsMembers.unique (moves_read type "") hFirst hSecond hSame

mutual

theorem judges_read
    (type : ValueType)
    (key : String)
    (c : Cursor) :
    Judges (Denotes type) c (type.read key c) := by
  cases type with
  | scalar type =>
      simp only [read]
      exact type.judges_read key c
  | list =>
      simp only [read]
      exact judges_readList key c
  | record types =>
      have hWhole :=
        Judges.after (L := Denotes (.record types)) .record
          (Cursor.Moves.refl c)
          (fun us vs hParts => .record hParts)
          (by
            intro us rest more b hDenotes hSame
            cases hDenotes with
            | record hParts => exact ⟨us, _, rfl, hParts⟩)
          (judges_readParts types key c)
      simp only [read]
      generalize readParts types key c = x at hWhole ⊢
      rcases x with ⟨_ | vs, d⟩
      · exact hWhole
      · exact hWhole

theorem judges_readParts
    (types : List ValueType)
    (key : String)
    (c : Cursor) :
    Judges (DenotesParts types) c (readParts types key c) := by
  cases types with
  | nil =>
      simp only [readParts]
      exact .member .nil (.refl c)
  | cons type types =>
      have hFirst := judges_read type key c
      simp only [readParts]
      rcases hRead : type.read key c with ⟨e | v, d⟩
      · rw [hRead] at hFirst
        apply hFirst.first
        · intro us a hDenotes
          rcases exists_denotesParts types with ⟨ts, vs, hRest⟩
          exact ⟨ts, a :: vs, .cons hDenotes hRest⟩
        · intro us b hParts
          cases hParts with
          | cons hDenotes hRest => exact ⟨_, _, _, rfl, hDenotes⟩
      · rw [hRead] at hFirst
        cases hFirst with
        | member hDenotes hMoves =>
            have hWhole :=
              Judges.after (L := DenotesParts (type :: types))
                (v :: ·) hMoves
                (fun us vs hRest => .cons hDenotes hRest)
                (by
                  intro us rest more b hParts hSame
                  cases hParts with
                  | cons hOther hRest =>
                      rw [List.append_assoc] at hSame
                      rcases hOther.unique hDenotes hSame with
                        ⟨rfl, rfl⟩
                      exact ⟨_, _, rfl, hRest⟩)
                (judges_readParts types key d)
            simp only
            generalize readParts types key d = x at hWhole ⊢
            rcases x with ⟨_ | vs, e⟩
            · exact hWhole
            · exact hWhole

end

/-
  Values of a type are read where they stand, and other input
  is blamed on the first token that makes it so.
-/
theorem recognizes_read
    (type : ValueType)
    (key : String) :
    Recognizes (Denotes type) (type.read key) where
  reads := moves_read type key
  judges := judges_read type key

end ValueType
end BlockScript
