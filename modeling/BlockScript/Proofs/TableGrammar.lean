import BlockScript.Proofs.Recognition

/-
  This file says what the body of a block with a table of
  fields consists of, and shows that exactly these bodies are
  read. Any other input is blamed on the first token after
  which it cannot become such a body.

  Key definitions include:
    * `FieldTable.Entry`
    * `FieldTable.IsBody`

  Key theorems include:
    * `FieldTable.accept_iff`
    * `FieldTable.IsBody.unique`
    * `FieldTable.recognizes_readFields`
    * `FieldTable.read_body`
-/

namespace BlockScript
namespace FieldTable

------------------------------------------------------------
-- Entries
------------------------------------------------------------

/-
  A key with the tokens of its value. The key names a field
  of the table, whose type the value has.
-/
structure Entry (table : FieldTable) where
  key : Token
  spec : FieldSpec
  parts : List Token
  value : Value
  isWord : key.isWord = true
  named : table.spec? key.text = some spec
  denotes : spec.type.Denotes parts value

namespace Entry

variable {table : FieldTable}

/- The tokens of an entry. -/
def tokens (e : table.Entry) : List Token :=
  e.key :: e.parts

/- The field that an entry is read as. -/
def field (e : table.Entry) : Field :=
  { key := e.spec.name,
    value := e.value,
    span :=
      { start := e.key.span.start,
        stop := (e.parts.getLastD e.key).span.stop } }

/- An entry may come again if its field is repeatable. -/
def MayPrecede (e e' : table.Entry) : Prop :=
  e.key.text = e'.key.text → e'.spec.repeatable = true

/- A field has the name that is its key. -/
theorem name_eq
    (e : table.Entry) :
    e.spec.name = e.key.text := by
  have hFound := List.find?_some e.named
  simpa using hFound

/- An entry is known by its key and what comes after it. -/
theorem eq_of_tokens
    {e e' : table.Entry}
    {rest rest' : List Token}
    (hSame : e.tokens ++ rest = e'.tokens ++ rest') :
    e = e' := by
  rcases e with ⟨key, spec, parts, value, hWord, hNamed, hDenotes⟩
  rcases e' with
    ⟨key', spec', parts', value', hWord', hNamed', hDenotes'⟩
  simp only [tokens, List.cons_append, List.cons.injEq] at hSame
  rcases hSame with ⟨rfl, hParts⟩
  rw [hNamed, Option.some.injEq] at hNamed'
  rcases hNamed' with rfl
  rcases hDenotes.unique hDenotes' hParts with ⟨rfl, rfl⟩
  rfl

end Entry

------------------------------------------------------------
-- Bodies
------------------------------------------------------------

/-
  Tokens that are the body of a block: entries, then the
  brace that closes the block. A field that is not repeatable
  comes once at most.
-/
structure IsBody
    (table : FieldTable)
    (ts : List Token)
    (es : List table.Entry) : Prop where
  once : es.Pairwise Entry.MayPrecede
  tokens :
    ∃ r, r.kind = .rBrace ∧ ts = es.flatMap Entry.tokens ++ [r]

/-
  Tokens that complete a body after some entries, with all
  fields of that body.
-/
def Completes
    (table : FieldTable)
    (before : List table.Entry)
    (ts : List Token)
    (fields : List Field) : Prop :=
  ∃ es,
    table.IsBody (before.flatMap Entry.tokens ++ ts)
        (before ++ es)
      ∧ fields = (before ++ es).map Entry.field

variable {table : FieldTable}

/- The closing brace completes a body. -/
theorem completes_brace
    {before : List table.Entry}
    {r : Token}
    (hOnce : before.Pairwise Entry.MayPrecede)
    (hRight : r.kind = .rBrace) :
    table.Completes before [r] (before.map Entry.field) := by
  refine ⟨[], ⟨?_, r, hRight, ?_⟩, ?_⟩
  · rwa [List.append_nil]
  · rw [List.append_nil]
  · rw [List.append_nil]

/- An entry in front is one that came before. -/
theorem completes_entry
    {before : List table.Entry}
    {e : table.Entry}
    {ts : List Token}
    {fields : List Field}
    (hRest : table.Completes (before ++ [e]) ts fields) :
    table.Completes before (e.tokens ++ ts) fields := by
  rcases hRest with ⟨es, hBody, rfl⟩
  refine ⟨e :: es, ?_, by simp⟩
  simpa using hBody

/-
  What completes a body is a closing brace alone, or begins
  with an entry.
-/
theorem Completes.cases
    {before : List table.Entry}
    {ts : List Token}
    {fields : List Field}
    (hCompletes : table.Completes before ts fields) :
    (∃ r,
      r.kind = .rBrace
        ∧ ts = [r]
        ∧ fields = before.map Entry.field)
      ∨ ∃ e us,
          ts = e.tokens ++ us
            ∧ (before ++ [e]).Pairwise Entry.MayPrecede
            ∧ table.Completes (before ++ [e]) us fields := by
  rcases hCompletes with ⟨_ | ⟨e, es⟩, hBody, rfl⟩
  · rcases hBody.tokens with ⟨r, hRight, hTokens⟩
    rw [List.append_nil] at hTokens ⊢
    exact .inl ⟨r, hRight, List.append_cancel_left hTokens, rfl⟩
  · rcases hBody.tokens with ⟨r, hRight, hTokens⟩
    rw [List.flatMap_append, List.append_assoc] at hTokens
    have hSplit := List.append_cancel_left hTokens
    rw [List.flatMap_cons, List.append_assoc] at hSplit
    have hOnce := hBody.once
    rw [List.append_cons] at hOnce
    refine .inr ⟨e, _, hSplit, ?_, es, ⟨?_, r, hRight, ?_⟩, ?_⟩
    · exact (List.pairwise_append.mp hOnce).1
    · exact hOnce
    · simp
    · simp

theorem Completes.ne_nil
    {before : List table.Entry}
    {ts : List Token}
    {fields : List Field}
    (hCompletes : table.Completes before ts fields) :
    ts ≠ [] := by
  rcases hCompletes.cases with ⟨r, -, rfl, -⟩ | ⟨e, us, rfl, -⟩
  · simp
  · simp [Entry.tokens]

------------------------------------------------------------
-- Keys
------------------------------------------------------------

/-
  A key is accepted if it is a word that names a field, and
  that field may come here.
-/
theorem accept_iff
    {fields : List Field}
    {key : Token}
    {spec : FieldSpec} :
    table.accept fields key = .ok spec
      ↔ key.isWord = true
          ∧ table.spec? key.text = some spec
          ∧ ((∃ f ∈ fields, f.key = spec.name) →
              spec.repeatable = true) := by
  unfold accept
  by_cases hWord : key.isWord = true
  · rw [if_pos hWord]
    rcases hSpec : table.spec? key.text with _ | found
    · simp
    · have hBusy :
          (!found.repeatable
              && fields.any (·.key == found.name)) = true
            ↔ ¬ ((∃ f ∈ fields, f.key = found.name) →
                  found.repeatable = true) := by
        cases found.repeatable <;> simp
      simp only [hBusy, hWord, true_and, Option.some.injEq]
      split
      · rename_i hTaken
        constructor
        · intro hOk
          simp at hOk
        · rintro ⟨rfl, hFree⟩
          exact absurd hFree hTaken
      · rename_i hFree
        rw [not_not] at hFree
        constructor
        · intro hOk
          rw [Except.ok.injEq] at hOk
          exact ⟨hOk, hOk ▸ hFree⟩
        · rintro ⟨rfl, -⟩
          rfl
  · rw [if_neg hWord]
    simp [hWord]

/- Entries are accepted where they may stand. -/
theorem accept_entry
    {before : List table.Entry}
    {e : table.Entry}
    (hOnce : (before ++ [e]).Pairwise Entry.MayPrecede) :
    table.accept (before.map Entry.field).reverse e.key
      = .ok e.spec := by
  refine accept_iff.mpr ⟨e.isWord, e.named, ?_⟩
  rintro ⟨f, hf, hKey⟩
  rw [List.mem_reverse, List.mem_map] at hf
  rcases hf with ⟨e', he', rfl⟩
  have hBefore := (List.pairwise_append.mp hOnce).2.2
  apply hBefore e' he' e (List.mem_singleton_self e)
  rw [← e'.name_eq, ← e.name_eq]
  exact hKey

/- Where a key is accepted its entries may stand. -/
theorem once_of_accept
    {before : List table.Entry}
    {e : table.Entry}
    (hOnce : before.Pairwise Entry.MayPrecede)
    (hAccept :
      table.accept (before.map Entry.field).reverse e.key
        = .ok e.spec) :
    (before ++ [e]).Pairwise Entry.MayPrecede := by
  refine List.pairwise_append.mpr ⟨hOnce, by simp, ?_⟩
  intro e' he' e'' he'' hText
  rw [List.mem_singleton] at he''
  rcases he'' with rfl
  apply (accept_iff.mp hAccept).2.2
  refine ⟨e'.field, ?_, ?_⟩
  · rw [List.mem_reverse]
    exact List.mem_map_of_mem he'
  · rw [e''.name_eq, ← hText]
    exact e'.name_eq

------------------------------------------------------------
-- Reading
------------------------------------------------------------

/- Where a value ends, the field of its entry ends. -/
theorem field_eq
    {c d d' : Cursor}
    (e : table.Entry)
    (hKey : c.Moves [e.key] d)
    (hValue : d.Moves e.parts d') :
    ({ key := e.spec.name,
       value := e.value,
       span :=
         { start := e.key.span.start,
           stop := d'.lastSpan.stop } } : Field)
      = e.field := by
  have hLast : d.LastIs e.key :=
    ⟨hKey.takes.lastSpan, hKey.takes.lastLocation⟩
  rw [(hValue.takes.lastIs hLast).1]
  rfl

/- One entry is read where it may stand. -/
theorem readFields_entry
    {before : List table.Entry}
    {e : table.Entry}
    {c : Cursor}
    {rest : List Token}
    (hOnce : (before ++ [e]).Pairwise Entry.MayPrecede)
    (hTokens : c.tokens = e.tokens ++ rest) :
    ∃ d,
      table.readFields (before.map Entry.field).reverse c
          = table.readFields
              ((before ++ [e]).map Entry.field).reverse d
        ∧ c.Moves e.tokens d := by
  have hWord := e.isWord
  have hKind : e.key.kind ≠ .rBrace := by
    intro hRight
    simp [Token.isWord, hRight] at hWord
  rcases Cursor.moves_next hTokens with ⟨d, hNext, hKey⟩
  rcases ValueType.moves_read e.spec.type e.key.text e.denotes
    (hKey.tokens_eq hTokens) with ⟨d', hRead, hValue⟩
  refine ⟨d', ?_, hKey.trans hValue⟩
  rw [readFields_eq, hNext]
  simp only [if_neg hKind, accept_entry hOnce, hRead,
    field_eq e hKey hValue, List.map_append, List.map_cons,
    List.map_nil, List.reverse_append, List.reverse_cons,
    List.reverse_nil, List.nil_append, List.singleton_append]

/- A brace ends the entries. -/
theorem readFields_brace
    {c : Cursor}
    {r : Token}
    {rest : List Token}
    (before : List table.Entry)
    (hRight : r.kind = .rBrace)
    (hTokens : c.tokens = r :: rest) :
    ∃ d,
      table.readFields (before.map Entry.field).reverse c
          = (.ok (before.map Entry.field), d)
        ∧ c.Moves [r] d := by
  rcases Cursor.moves_next hTokens with ⟨d, hNext, hMoves⟩
  refine ⟨d, ?_, hMoves⟩
  rw [readFields_eq, hNext]
  simp only [if_pos hRight, List.reverse_reverse]

/-
  The entries of a body are read, whatever follows it. The
  induction is on the tokens of what completes the body.
-/
theorem readsMembers_readFields
    (before : List table.Entry) :
    ReadsMembers (table.Completes before)
      (table.readFields (before.map Entry.field).reverse) := by
  intro c ts rest fields hCompletes hTokens
  generalize hSize : ts.length = n
  induction n using Nat.strongRecOn
    generalizing before ts c with
  | ind n ih =>
      rcases hCompletes.cases with
        ⟨r, hRight, rfl, rfl⟩ | ⟨e, us, rfl, hOnce, hRest⟩
      · exact readFields_brace before hRight hTokens
      · rw [List.append_assoc] at hTokens
        rcases readFields_entry hOnce hTokens with
          ⟨d, hSame, hEntry⟩
        have hLess : us.length < n := by
          rw [← hSize, List.length_append]
          simp [Entry.tokens]
        rcases ih _ hLess (before ++ [e]) hRest
          (hEntry.tokens_eq hTokens) rfl with
          ⟨d', hRead, hMoves⟩
        exact ⟨d', hSame.trans hRead, hEntry.trans hMoves⟩

/- A key that is not accepted begins nothing. -/
theorem excludes_key
    {before : List table.Entry}
    {key : Token}
    (hKind : key.kind ≠ .rBrace)
    (hAccept :
      ∀ spec,
        table.accept (before.map Entry.field).reverse key
          ≠ .ok spec) :
    Excludes (table.Completes before) [key] := by
  intro us rest more fields hCompletes hSame
  rcases hCompletes.cases with
    ⟨r, hRight, rfl, -⟩ | ⟨e, us, rfl, hOnce, -⟩
  · simp only [List.singleton_append, List.cons.injEq] at hSame
    exact hKind (hSame.1 ▸ hRight)
  · simp only [Entry.tokens, List.cons_append,
      List.cons.injEq] at hSame
    exact hAccept e.spec (hSame.1 ▸ accept_entry hOnce)

/-
  A value that fails after its key was accepted makes the
  body fail in the same way.
-/
theorem judges_value
    {before : List table.Entry}
    {key : Token}
    {spec : FieldSpec}
    {c d d' : Cursor}
    {e : BodyError}
    (hOnce : before.Pairwise Entry.MayPrecede)
    (hAccept :
      table.accept (before.map Entry.field).reverse key
        = .ok spec)
    (hKey : c.Moves [key] d)
    (hValue : Judges spec.type.Denotes d (.error e, d')) :
    Judges (table.Completes before) c (.error e, d') := by
  rcases accept_iff.mp hAccept with ⟨hWord, hNamed, -⟩
  have hRest :
      Judges (fun us => table.Completes before (key :: us)) d
        (.error e, d') := by
    apply hValue.first
    · intro us v hDenotes
      let entry : table.Entry :=
        ⟨key, spec, us, v, hWord, hNamed, hDenotes⟩
      have hMore : (before ++ [entry]).Pairwise _ :=
        once_of_accept hOnce hAccept
      exact ⟨[ValueType.brace], _,
        completes_entry (completes_brace hMore rfl)⟩
    · intro us fields hCompletes
      rcases hCompletes.cases with
        ⟨r, hRight, hTokens, -⟩ | ⟨entry, vs, hTokens, -⟩
      · simp only [List.cons.injEq] at hTokens
        simp [Token.isWord, hTokens.1, hRight] at hWord
      · simp only [Entry.tokens, List.cons_append,
          List.cons.injEq] at hTokens
        have hSpec := entry.named
        rw [← hTokens.1, hNamed, Option.some.injEq] at hSpec
        refine ⟨entry.parts, vs, entry.value, hTokens.2, ?_⟩
        rw [hSpec]
        exact entry.denotes
  refine hRest.after id hKey (fun us fields h => h) ?_
  intro us rest more fields hCompletes hSame
  rcases ValueType.cons_of_append hCompletes.ne_nil hSame with
    ⟨vs, rfl⟩
  exact ⟨vs, fields, rfl, hCompletes⟩

/- What is judged after an entry is judged before it. -/
theorem judges_entry
    {before : List table.Entry}
    {entry : table.Entry}
    {c d : Cursor}
    {x : Reading (List Field)}
    (hMoves : c.Moves entry.tokens d)
    (hRest : Judges (table.Completes (before ++ [entry])) d x) :
    Judges (table.Completes before) c x := by
  have hWhole :=
    Judges.after (L := table.Completes before) id hMoves
      (fun us fields => completes_entry)
      (by
        intro us rest more fields hCompletes hSame
        rcases hCompletes.cases with
          ⟨r, hRight, rfl, -⟩ | ⟨other, vs, rfl, -, hMore⟩
        · have hWord := entry.isWord
          simp only [Entry.tokens, List.cons_append,
            List.nil_append, List.cons.injEq] at hSame
          simp [Token.isWord, ← hSame.1, hRight] at hWord
        · rw [List.append_assoc] at hSame
          rcases Entry.eq_of_tokens hSame with rfl
          exact ⟨vs, fields, rfl, hMore⟩)
      hRest
  rw [Except.map_id] at hWhole
  exact hWhole

/-
  Any input is judged by what would complete the body. The
  induction is on the number of tokens left.
-/
theorem judges_readFields
    {before : List table.Entry}
    (hOnce : before.Pairwise Entry.MayPrecede)
    (c : Cursor) :
    Judges (table.Completes before) c
      (table.readFields (before.map Entry.field).reverse c) := by
  generalize hSize : c.tokens.length = n
  induction n using Nat.strongRecOn generalizing before c with
  | ind n ih =>
      have hSome :=
        completes_brace hOnce (r := ValueType.brace) rfl
      rcases hTokens : c.tokens with _ | ⟨key, ts⟩
      · rw [readFields_eq, Cursor.next_of_tokens_nil hTokens]
        exact .ended hTokens hSome (by simp)
      · by_cases hRight : key.kind = .rBrace
        · rcases readFields_brace before hRight hTokens with
            ⟨d, hRead, hMoves⟩
          rw [hRead]
          exact .member (completes_brace hOnce hRight) hMoves
        · rcases Cursor.moves_next hTokens with
            ⟨d, hNext, hKey⟩
          rcases hAccept :
              table.accept (before.map Entry.field).reverse key
            with e | spec
          · rcases accept_error hAccept with ⟨cause, rfl⟩
            rw [readFields_eq, hNext]
            simp only [if_neg hRight, hAccept]
            refine .atFirst hTokens hSome ?_ (.inr hKey)
            apply excludes_key hRight
            intro spec hOther
            simp [hAccept] at hOther
          · have hValue :=
              (spec.type.recognizes_read key.text).judges d
            rcases hRead : spec.type.read key.text d with
              ⟨e | v, d'⟩
            · rw [hRead] at hValue
              rw [readFields_eq, hNext]
              simp only [if_neg hRight, hAccept, hRead]
              exact judges_value hOnce hAccept hKey hValue
            · rw [hRead] at hValue
              cases hValue with
              | @member parts _ _ hDenotes hMoves =>
                  rcases accept_iff.mp hAccept with
                    ⟨hWord, hNamed, -⟩
                  let entry : table.Entry :=
                    ⟨key, spec, parts, v, hWord, hNamed,
                      hDenotes⟩
                  have hMore : (before ++ [entry]).Pairwise _ :=
                    once_of_accept hOnce hAccept
                  have hTaken :
                      c.tokens = entry.tokens ++ d'.tokens :=
                    (hKey.trans hMoves).takes.tokens
                  rcases readFields_entry hMore hTaken with
                    ⟨d'', hSame, hEntry⟩
                  rw [hSame]
                  apply judges_entry hEntry
                  apply ih _ _ hMore d'' rfl
                  rw [hEntry.tokens_eq hTaken, ← hSize, hTaken,
                    List.length_append]
                  simp [Entry.tokens]

/- A table recognizes its bodies. -/
theorem recognizes_readFields
    (table : FieldTable) :
    Recognizes (table.Completes []) (table.readFields []) where
  reads := readsMembers_readFields []
  judges := judges_readFields .nil

------------------------------------------------------------
-- Whole Bodies
------------------------------------------------------------

/- Whether tokens can be continued to a body. -/
def Begins
    (table : FieldTable)
    (ts : List Token) : Prop :=
  ∃ more es, table.IsBody (ts ++ more) es

theorem exists_completes_iff
    {ts : List Token} :
    (∃ fields, table.Completes [] ts fields)
      ↔ ∃ es, table.IsBody ts es := by
  constructor
  · rintro ⟨fields, es, hBody, -⟩
    exact ⟨es, hBody⟩
  · rintro ⟨es, hBody⟩
    exact ⟨_, es, hBody, rfl⟩

/- Entries up to a closing brace are there in one way. -/
theorem entries_unique
    {es es' : List table.Entry}
    {r r' : Token}
    {rest more : List Token}
    (hRight : r.kind = .rBrace)
    (hRight' : r'.kind = .rBrace)
    (hSame :
      es.flatMap Entry.tokens ++ r :: rest
        = es'.flatMap Entry.tokens ++ r' :: more) :
    es = es' ∧ r = r' := by
  have hKey : ∀ (e : table.Entry) (s : Token),
      s.kind = .rBrace → e.key ≠ s := by
    rintro e s hBrace rfl
    have hWord := e.isWord
    simp [Token.isWord, hBrace] at hWord
  induction es generalizing es' with
  | nil =>
      cases es' with
      | nil =>
          simp only [List.flatMap_nil, List.nil_append,
            List.cons.injEq] at hSame
          exact ⟨rfl, hSame.1⟩
      | cons e' es' =>
          simp only [List.flatMap_nil, List.flatMap_cons,
            Entry.tokens, List.nil_append, List.cons_append,
            List.cons.injEq] at hSame
          exact absurd hSame.1.symm (hKey e' r hRight)
  | cons e es ih =>
      cases es' with
      | nil =>
          simp only [List.flatMap_nil, List.flatMap_cons,
            Entry.tokens, List.nil_append, List.cons_append,
            List.cons.injEq] at hSame
          exact absurd hSame.1 (hKey e r' hRight')
      | cons e' es' =>
          simp only [List.flatMap_cons,
            List.append_assoc] at hSame
          rcases Entry.eq_of_tokens hSame with rfl
          rcases ih (List.append_cancel_left hSame) with
            ⟨rfl, rfl⟩
          exact ⟨rfl, rfl⟩

/-
  Input begins with one body at most, and a body has its
  entries in one way.
-/
theorem IsBody.unique
    {ts us : List Token}
    {es es' : List table.Entry}
    {input : List Token}
    (hFirst : table.IsBody ts es)
    (hSecond : table.IsBody us es')
    (hPrefix : ts <+: input)
    (hPrefix' : us <+: input) :
    ts = us ∧ es = es' := by
  rcases hFirst.tokens with ⟨r, hRight, rfl⟩
  rcases hSecond.tokens with ⟨r', hRight', rfl⟩
  rcases hPrefix with ⟨rest, rfl⟩
  rcases hPrefix' with ⟨more, hSame⟩
  simp only [List.append_assoc, List.singleton_append] at hSame
  rcases entries_unique hRight' hRight hSame with ⟨rfl, rfl⟩
  exact ⟨rfl, rfl⟩

/-
  Whatever stands at a cursor, a body is read from it if and
  only if one is there. It is the only one, all of it is
  taken, and its fields are those of its entries. Without a
  body, input has ended if it could go on to one, and all of
  it is taken. Otherwise a token is blamed: those before it
  can go on to a body, and with it they cannot.
-/
theorem read_body
    (table : FieldTable)
    (h : Header)
    (c : Cursor) :
    (∀ p,
      (∃ fields d,
        (Body.table table).read h c = (.ok fields, d)
          ∧ c.Moves p d)
        ↔ p <+: c.tokens ∧ ∃ es, table.IsBody p es)
    ∧ (∀ p es,
        p <+: c.tokens →
          table.IsBody p es →
            (∃ d,
              (Body.table table).read h c
                  = (.ok (es.map Entry.field), d)
                ∧ c.Moves p d)
              ∧ ∀ p' es',
                  p' <+: c.tokens →
                    table.IsBody p' es' →
                      p' = p ∧ es' = es)
    ∧ ((¬ ∃ p es, p <+: c.tokens ∧ table.IsBody p es) →
        (table.Begins c.tokens →
          ∃ d,
            (Body.table table).read h c
                = (.error .unexpectedEof, d)
              ∧ c.Moves c.tokens d)
        ∧ (¬ table.Begins c.tokens →
            ∃ front t back cause d,
              c.tokens = front ++ t :: back
                ∧ table.Begins front
                ∧ ¬ table.Begins (front ++ [t])
                ∧ (Body.table table).read h c
                    = (.error (.malformed cause (some t)), d)
                ∧ (c.Moves front d
                    ∨ c.Moves (front ++ [t]) d))) := by
  have hRecognizes := table.recognizes_readFields
  refine ⟨?_, ?_, ?_⟩
  · intro p
    rw [← exists_completes_iff]
    exact hRecognizes.ok_iff c
  · rintro p es hPrefix hBody
    constructor
    · rcases hPrefix with ⟨rest, hTokens⟩
      exact hRecognizes.reads ⟨es, hBody, rfl⟩ hTokens.symm
    · intro p' es' hPrefix' hBody'
      exact hBody'.unique hBody hPrefix' hPrefix
  · intro hNone
    have hNot :
        ∀ ts fields,
          ts <+: c.tokens → ¬ table.Completes [] ts fields := by
      rintro ts fields hPrefix ⟨es, hBody, -⟩
      exact hNone ⟨ts, es, hPrefix, hBody⟩
    have hBegins :
        ∀ ts,
          table.Begins ts
            ↔ ∃ more fields,
                table.Completes [] (ts ++ more) fields := by
      intro ts
      simp only [Begins, exists_completes_iff]
    simp only [hBegins]
    exact ⟨hRecognizes.eof_of_begins hNot,
      hRecognizes.blames_of_not_begins hNot⟩

end FieldTable
end BlockScript
