import BlockScript.Proofs.Taking

/-
  This file shows that a script is read item by item: the
  tokens fall into items in one way, every block among these
  gives one block of the script, and what is reported follows
  from the items.

  Key definitions include:
    * `Item.block?`
    * `Item.reports`
    * `Items.reports`
    * `Item.Gives`

  Key theorems include:
    * `Registry.takes_readName`
    * `Registry.takes_readBraced`
    * `Registry.takes_readItem`
    * `Registry.takes_readItems`
    * `Script.ofTokens_items`
-/

namespace BlockScript

------------------------------------------------------------
-- Reports about Items
------------------------------------------------------------

namespace Diagnostic

/- A diagnostic at a token. -/
def placeAt
    (d : Diagnostic)
    (t : Token) : Diagnostic :=
  d.place t.span t.location

/-
  A diagnostic at the token found, or else at the end of the
  last one before it.
-/
def placeNear
    (d : Diagnostic)
    (last : Token) : Option Token → Diagnostic
  | some t => d.placeAt t
  | none => d.placeAfter last

/- A place does not change what is reported. -/
@[simp]
theorem kind_placeAt
    (d : Diagnostic)
    (t : Token) :
    (d.placeAt t).kind = d.kind :=
  rfl

@[simp]
theorem kind_placeAfter
    (d : Diagnostic)
    (t : Token) :
    (d.placeAfter t).kind = d.kind :=
  rfl

@[simp]
theorem kind_placeNear
    (d : Diagnostic)
    (last : Token)
    (found : Option Token) :
    (d.placeNear last found).kind = d.kind := by
  cases found <;> rfl

@[simp]
theorem kind_ofProblem
    (p : Problem) :
    (ofProblem p).kind = p.kind :=
  rfl

end Diagnostic

/- The report about a group that input ended. -/
def Braces.reports (problem : Problem) :
    Braces → List Diagnostic
  | unclosed l inner =>
      [(Diagnostic.ofProblem problem).placeAfter
        (inner.getLastD l)]
  | _ => []

namespace Item

/-
  The report about the name of a block with the token `k` as
  its keyword, where `after` follows the name.
-/
def nameReports
    (k : Token)
    (named : Bool)
    (name : Option Token)
    (after : List Token) : List Diagnostic :=
  match named, name with
  | false, _ => []
  | true, some t =>
      if t.isWord then
        []
      else
        let problem := Problem.missingName k.text (some t)
        [(Diagnostic.ofProblem problem).placeAt t]
  | true, none =>
      let problem := Problem.missingName k.text after.head?
      [(Diagnostic.ofProblem problem).placeNear k after.head?]

/-
  The report about the group of a block with the keyword `k`,
  after the token `last` and before `rest`.
-/
def bodyReports
    (k last : Token)
    (braces : Braces)
    (rest : List Token) : List Diagnostic :=
  match braces with
  | .absent =>
      let problem := Problem.missingBody k.text rest.head?
      [(Diagnostic.ofProblem problem).placeNear last rest.head?]
  | braces => braces.reports (.openBlock k.text)

/- A group that is there is reported if it is not closed. -/
theorem bodyReports_of_some
    {braces : Braces}
    (k last : Token)
    (rest : List Token)
    (hSome : braces.tokens ≠ []) :
    bodyReports k last braces rest
      = braces.reports (.openBlock k.text) := by
  cases braces with
  | absent => exact absurd rfl hSome
  | closed => rfl
  | unclosed => rfl

/- What is reported about an item that stands before `rest`. -/
def reports (rest : List Token) : Item → List Diagnostic
  | block k named name braces =>
      nameReports k named name (braces.tokens ++ rest)
        ++ bodyReports k (name.getD k) braces rest
  | unknown k _ braces =>
      let problem := Problem.unknownKeyword k.text
      (Diagnostic.ofProblem problem).placeAt k
        :: braces.reports .openUnknownBlock
  | stray run braces =>
      ((run ++ braces.tokens).head?.map fun t =>
          (Diagnostic.ofProblem (.strayToken t)).placeAt t).toList
        ++ braces.reports .openGroup

/-
  The frame of the block that an item gives: the name only if
  it is a word, and everything from the start of the keyword
  to the end of the last token.
-/
def header? : Item → Option Header
  | block k _ name braces =>
      some
        { keyword := k.text,
          name := (name.filter Token.isWord).map Token.text,
          span :=
            { start := k.span.start,
              stop :=
                ((name.toList ++ braces.tokens).getLastD
                  k).span.stop } }
  | _ => none

/- Whether an item has a group with its closing brace. -/
def isClosed : Item → Bool
  | block _ _ _ braces
  | unknown _ _ braces
  | stray _ braces => braces.isClosed

/- The block that an item gives if bodies are not read. -/
def block? (item : Item) : Option Block :=
  item.header?.map fun h =>
    { keyword := h.keyword,
      name := h.name,
      span := h.span,
      outcome :=
        if item.isClosed then .parsed [] else .failed }

end Item

namespace Items

/- The tokens of several items. -/
def tokens (items : List Item) : List Token :=
  items.flatMap Item.tokens

/- What is reported about several items. -/
def reports : List Item → List Diagnostic
  | [] => []
  | item :: items =>
      item.reports (tokens items) ++ reports items

end Items

/- Items that fill some tokens have these tokens. -/
theorem Splits.tokens_eq
    {r : Registry}
    {ts : List Token}
    {items : List Item}
    (hSplits : Splits r ts items) :
    Items.tokens items = ts := by
  induction hSplits with
  | nil => rfl
  | cons _ _ ih =>
      rw [Items.tokens, List.flatMap_cons, ← ih]
      rfl

------------------------------------------------------------
-- Reports Are Not about Bodies
------------------------------------------------------------

theorem Braces.outsideBodies_reports
    {problem : Problem}
    (braces : Braces)
    (hKind : problem.kind ≠ .malformedBody) :
    Diagnostics.outsideBodies (braces.reports problem)
      = braces.reports problem := by
  cases braces <;>
    simp [reports, Diagnostics.outsideBodies, hKind]

theorem Item.outsideBodies_nameReports
    (k : Token)
    (named : Bool)
    (name : Option Token)
    (after : List Token) :
    Diagnostics.outsideBodies (nameReports k named name after)
      = nameReports k named name after := by
  unfold nameReports
  split
  · rfl
  · split
    · rfl
    · simp [Diagnostics.outsideBodies, Problem.kind]
  · simp [Diagnostics.outsideBodies, Problem.kind]

theorem Item.outsideBodies_bodyReports
    (k last : Token)
    (braces : Braces)
    (rest : List Token) :
    Diagnostics.outsideBodies (bodyReports k last braces rest)
      = bodyReports k last braces rest := by
  unfold bodyReports
  split
  · simp [Diagnostics.outsideBodies, Problem.kind]
  · exact Braces.outsideBodies_reports _ (by simp [Problem.kind])

theorem Item.outsideBodies_reports
    (item : Item)
    (rest : List Token) :
    Diagnostics.outsideBodies (item.reports rest)
      = item.reports rest := by
  cases item with
  | block k named name braces =>
      rw [reports, Diagnostics.outsideBodies_append,
        outsideBodies_nameReports, outsideBodies_bodyReports]
  | unknown k name braces =>
      rw [reports, ← List.singleton_append,
        Diagnostics.outsideBodies_append,
        Braces.outsideBodies_reports _ (by simp [Problem.kind])]
      rfl
  | stray run braces =>
      rw [reports, Diagnostics.outsideBodies_append,
        Braces.outsideBodies_reports _ (by simp [Problem.kind])]
      cases (run ++ braces.tokens).head? <;> rfl

/- What is reported about items is not about bodies. -/
theorem Items.outsideBodies_reports
    (items : List Item) :
    Diagnostics.outsideBodies (reports items)
      = reports items := by
  induction items with
  | nil => rfl
  | cons item items ih =>
      rw [reports, Diagnostics.outsideBodies_append,
        Item.outsideBodies_reports, ih]

------------------------------------------------------------
-- Passing Over
------------------------------------------------------------

namespace Cursor

theorem takes_reportAt
    (c : Cursor)
    (d : Diagnostic)
    (t : Token) :
    c.Takes [] [d.placeAt t] (c.reportAt d t) :=
  c.takes_report _

theorem takes_reportNear
    {c : Cursor}
    {last : Token}
    (d : Diagnostic)
    (found : Option Token)
    (hLast : c.LastIs last) :
    c.Takes [] [d.placeNear last found]
      (c.reportNear d found) := by
  cases found with
  | none => exact takes_reportAtEnd d hLast
  | some t => exact c.takes_reportAt d t

/- At the top, only an opening brace leads away from it. -/
theorem depthAfter_of_not_lBrace
    {t : Token}
    (hLeft : t.kind ≠ .lBrace) :
    depthAfter 0 t.kind = 0 := by
  unfold depthAfter
  split <;> simp_all

theorem depth_of_plain
    {ts : List Token}
    (hPlain : ∀ t ∈ ts, t.kind ≠ .lBrace) :
    ts.foldl (fun d t => depthAfter d t.kind) 0 = 0 := by
  induction ts with
  | nil => rfl
  | cons t ts ih =>
      rw [List.foldl_cons,
        depthAfter_of_not_lBrace (hPlain t List.mem_cons_self)]
      apply ih
      intro s hs
      exact hPlain s (List.mem_cons_of_mem t hs)

theorem AtTop.of_takes
    {c d : Cursor}
    {taken : List Token}
    {reported : List Diagnostic}
    (hTop : c.AtTop)
    (hTakes : c.Takes taken reported d)
    (hPlain : ∀ t ∈ taken, t.kind ≠ .lBrace) :
    d.AtTop := by
  intro hSome
  have hZero : c.depth = 0 := by
    refine hTop ?_
    rw [hTakes.tokens]
    exact List.append_ne_nil_of_right_ne_nil _ hSome
  rw [hTakes.depth, hZero, depth_of_plain hPlain]

/-
  A group is reported if it was not closed, at the end of its
  last token.
-/
theorem takes_reportOpen
    {c : Cursor}
    {braces : Braces}
    {t : Token}
    (problem : Problem)
    (hSome : braces.tokens ≠ [])
    (hLast : c.LastIs (braces.tokens.getLastD t)) :
    c.Takes [] (braces.reports problem)
      (if braces.isClosed then
        c
      else
        c.reportAtEnd (.ofProblem problem)) := by
  cases braces with
  | absent => exact absurd rfl hSome
  | closed l inner r => exact .refl c
  | unclosed l inner =>
      rw [Braces.tokens, List.getLastD_cons] at hLast
      exact takes_reportAtEnd (.ofProblem problem) hLast

/- Passing over a group takes it and reports about it. -/
theorem takes_passGroup
    {c : Cursor}
    {t : Token}
    (problem : Problem)
    (hTop : c.AtTop)
    (hLast : c.LastIs t) :
    ∃ braces : Braces,
      braces.Fits (c.passGroup problem).tokens
        ∧ c.Takes braces.tokens (braces.reports problem)
            (c.passGroup problem)
        ∧ (c.passGroup problem).AtTop := by
  unfold passGroup skipGroup
  rcases takes_eat hTop with
    ⟨l, d, hEat, hLeft, hTakes, hDepth⟩
      | ⟨d, hEat, hFits, hTakes, hAfter, -⟩
  · obtain ⟨braces, taken, e, hSkip, hTokens, hFits, hMore,
      hAfter⟩ := takes_body hLeft hDepth
    have hBoth := hTakes.trans hMore
    rw [List.singleton_append, ← hTokens] at hBoth
    have hClosed :=
      hBoth.trans
        (takes_reportOpen problem (by simp [hTokens])
          (hBoth.lastIs hLast))
    rw [List.append_nil] at hClosed
    rw [hEat]
    simp only [hDepth, hSkip]
    refine ⟨braces, ?_⟩
    rcases hFound : braces.isClosed with _ | _
    · rw [hFound] at hClosed
      exact ⟨hFits, hClosed, hAfter⟩
    · rw [hFound] at hClosed
      exact ⟨hFits, hClosed, hAfter⟩
  · rw [hEat]
    exact ⟨.absent, hFits, hTakes, hAfter⟩

/-
  Passing over stray tokens takes all that begin no block, and
  the group after them.
-/
theorem takes_passStray
    {c : Cursor}
    {t : Token}
    (hTop : c.AtTop)
    (hLast : c.LastIs t) :
    ∃ (run : List Token) (braces : Braces),
      (∀ s ∈ run, s.kind ≠ .ident ∧ s.kind ≠ .lBrace)
        ∧ (∀ s,
            (braces.tokens ++ c.passStray.tokens).head?
                = some s →
              s.kind = .ident ∨ s.kind = .lBrace)
        ∧ braces.Fits c.passStray.tokens
        ∧ c.Takes (run ++ braces.tokens)
            (braces.reports .openGroup) c.passStray
        ∧ c.passStray.AtTop := by
  generalize hTokens : c.tokens = ts
  induction ts generalizing c t with
  | nil =>
      have hPeek : c.peek = (none, c.peek.2) := by
        rw [← show c.peek.1 = none by rw [peek_fst, hTokens]; rfl]
      have hEnd : c.peek.2.tokens = [] := by
        rw [tokens_peek, hTokens]
      rw [Cursor.passStray_eq, hPeek]
      refine ⟨[], .absent, by simp, ?_, ?_, c.takes_peek, ?_⟩
      · simp [Braces.tokens, hEnd]
      · simp [Braces.Fits, hEnd]
      · intro hSome
        exact absurd hEnd hSome
  | cons s ts ih =>
      have hPeek : c.peek = (some s, c.peek.2) := by
        rw [← show c.peek.1 = some s by
          rw [peek_fst, hTokens]
          rfl]
      have hLook := c.takes_peek
      have hAfter : c.peek.2.tokens = s :: ts := by
        rw [tokens_peek, hTokens]
      have hTop' := hTop.of_takes hLook (by simp)
      have hLast' := hLook.lastIs hLast
      have hPass := Cursor.passStray_eq c
      rw [hPeek] at hPass
      generalize c.peek.2 = d at *
      by_cases hIdent : s.kind = .ident
      · simp only [hIdent] at hPass
        rw [hPass]
        refine ⟨[], .absent, by simp, ?_, ?_, hLook, hTop'⟩
        · simp [Braces.tokens, hAfter, hIdent]
        · simp [Braces.Fits, hAfter, hIdent]
      by_cases hLeft : s.kind = .lBrace
      · simp only [hLeft] at hPass
        rw [hPass]
        obtain ⟨braces, hFits, hTakes, hEnd⟩ :=
          takes_passGroup .openGroup hTop' hLast'
        refine ⟨[], braces, by simp, ?_, hFits,
          hLook.trans hTakes, hEnd⟩
        rw [← hTakes.tokens, hAfter]
        simp [hLeft]
      · -- One more token of the run.
        obtain ⟨e, hNext, hTakes, hRest⟩ := takes_next hAfter
        have hMore :=
          hTop'.of_takes hTakes
            (by simpa using hLeft)
        obtain ⟨run, braces, hRun, hHead, hFits, hThen, hEnd⟩ :=
          ih hMore (hTakes.lastIs hLast') hRest
        have hThere : c.passStray = e.passStray := by
          rw [hPass]
          simp only [hNext]
        rw [hThere]
        refine ⟨s :: run, braces, ?_, hHead, hFits,
          (hLook.trans hTakes).trans hThen, hEnd⟩
        simpa [hIdent, hLeft] using hRun

/- What is seen is the first of the tokens. -/
theorem peek_eq
    (c : Cursor) :
    c.peek = (c.tokens.head?, c.peek.2) := by
  rw [← peek_fst]

end Cursor

------------------------------------------------------------
-- Blocks
------------------------------------------------------------

namespace Registry

open Item

/- A name is taken, or what stands in its place reported. -/
theorem takes_readName
    {c : Cursor}
    {k : Token}
    (hTop : c.AtTop)
    (hLast : c.LastIs k) :
    ∃ (name : Option Token) (d : Cursor),
      readName k.text c
          = ((name.filter Token.isWord).map Token.text, d)
        ∧ NameFits true name d.tokens
        ∧ c.Takes name.toList (nameReports k true name d.tokens) d
        ∧ d.AtTop := by
  have hLook := c.takes_peek
  have hPeek := c.peek_eq
  have hTop' := hTop.of_takes hLook (by simp)
  have hLast' := hLook.lastIs hLast
  have hTokens : c.peek.2.tokens = c.tokens := by simp
  unfold readName
  rw [hPeek]
  generalize c.peek.2 = d at *
  rcases hFound : c.tokens with _ | ⟨t, ts⟩
  · rw [hFound] at hTokens
    have hReport :=
      Cursor.takes_reportAtEnd
        (.ofProblem (.missingName k.text none)) hLast'
    refine ⟨none, _, rfl, .missing ?_, ?_, ?_⟩
    · simp [hTokens]
    · have hBoth := hLook.trans hReport
      simpa [nameReports, hTokens, Diagnostic.placeNear]
        using hBoth
    · exact hTop'.of_takes hReport (by simp)
  · rw [hFound] at hTokens
    obtain ⟨e, hNext, hTakes, hRest⟩ := Cursor.takes_next hTokens
    simp only [List.head?_cons, hNext]
    by_cases hWord : t.isWord
    · rw [if_pos hWord]
      have hKind : t.kind = .ident ∨ t.kind = .str := by
        simpa [Token.isWord] using hWord
      refine ⟨some t, e, ?_, .name hKind, ?_, ?_⟩
      · simp [Option.filter, hWord]
      · have hBoth := hLook.trans hTakes
        simpa [nameReports, hWord] using hBoth
      · refine hTop'.of_takes hTakes ?_
        rcases hKind with h | h <;> simp [h]
    · rw [if_neg hWord]
      by_cases hBrace : t.kind = .lBrace ∨ t.kind = .rBrace
      · -- A brace is seen, but it is not taken.
        rw [if_pos hBrace]
        have hReport :=
          d.takes_reportAt
            (.ofProblem (.missingName k.text (some t))) t
        refine ⟨none, _, rfl, .missing ?_, ?_, ?_⟩
        · simpa [Cursor.reportAt, hTokens] using hBrace
        · have hBoth := hLook.trans hReport
          simpa [nameReports, Cursor.reportAt, hTokens,
            Diagnostic.placeNear] using hBoth
        · exact hTop'.of_takes hReport (by simp)
      · rw [if_neg hBrace]
        have hTaken :=
          hTakes.trans
            (e.takes_reportAt
              (.ofProblem (.missingName k.text (some t))) t)
        have hName :
            ((some t).filter Token.isWord).map Token.text
              = none := by
          simp [Option.filter, hWord]
        have hKind :
            t.kind = .number ∨ t.kind = .lParen
              ∨ t.kind = .rParen := by
          cases hKind : t.kind <;> simp_all [Token.isWord]
        refine ⟨some t, _, by rw [hName], .other hKind, ?_, ?_⟩
        · have hBoth := hLook.trans hTaken
          simpa [nameReports, hWord] using hBoth
        · refine hTop'.of_takes hTaken ?_
          simpa using fun h => hBrace (.inl h)

/- Only kinds that have names have one read. -/
theorem takes_readNamed
    {c : Cursor}
    {k : Token}
    (kind : BlockKind)
    (hTop : c.AtTop)
    (hLast : c.LastIs k) :
    ∃ (name : Option Token) (d : Cursor),
      readNamed kind k.text c
          = ((name.filter Token.isWord).map Token.text, d)
        ∧ NameFits kind.named name d.tokens
        ∧ c.Takes name.toList
            (nameReports k kind.named name d.tokens) d
        ∧ d.AtTop := by
  unfold readNamed
  rcases kind.named with _ | _
  · exact ⟨none, c, rfl, .unnamed, .refl c, hTop⟩
  · exact takes_readName hTop hLast

/- A group is taken for the body, or reported as missing. -/
theorem takes_readBraced
    {c : Cursor}
    {kind : BlockKind}
    {last : Token}
    (k : Token)
    (name : Option String)
    (hBody : kind.body = .unstructured)
    (hTop : c.AtTop)
    (hLast : c.LastIs last) :
    ∃ (braces : Braces) (d : Cursor),
      readBraced kind k name c
          = ({ keyword := k.text,
               name,
               span :=
                { start := k.span.start,
                  stop :=
                    (braces.tokens.getLastD last).span.stop },
               outcome :=
                if braces.isClosed then .parsed [] else .failed },
              d)
        ∧ braces.Fits d.tokens
        ∧ c.Takes braces.tokens
            (bodyReports k last braces d.tokens) d
        ∧ d.AtTop := by
  unfold readBraced
  rcases Cursor.takes_eat hTop with
    ⟨l, d, hEat, hLeft, hTakes, hDepth⟩
      | ⟨d, hEat, hFits, hTakes, hAfter, hPeek⟩
  · obtain ⟨braces, taken, e, hSkip, hTokens, hFits, hMore,
      hAfter⟩ := Cursor.takes_body hLeft hDepth
    have hBoth := hTakes.trans hMore
    rw [List.singleton_append, ← hTokens] at hBoth
    have hEnd := hBoth.lastIs hLast
    have hClosed :=
      hBoth.trans
        (Cursor.takes_reportOpen (.openBlock k.text)
          (by simp [hTokens]) hEnd)
    rw [List.append_nil] at hClosed
    rw [hEat]
    simp only [hBody, Header.readBlock_unstructured, hDepth,
      hSkip]
    have hSome : braces.tokens ≠ [] := by simp [hTokens]
    rcases hFound : braces.isClosed with _ | _
    · rw [hFound] at hClosed
      have hSpan :
          (e.reportAtEnd
            (.ofProblem (.openBlock k.text))).lastSpan
            = (braces.tokens.getLastD last).span :=
        hEnd.1
      refine ⟨braces,
        e.reportAtEnd (.ofProblem (.openBlock k.text)),
        ?_, hFits, ?_, hAfter⟩
      · simp only [Header.closeAtEnd, Header.close, headerAt,
          hSpan, hFound]
        rfl
      · rw [bodyReports_of_some k last _ hSome]
        exact hClosed
    · rw [hFound] at hClosed
      refine ⟨braces, _, ?_, hFits, ?_, hAfter⟩
      · simp only [Header.close, hEnd.1, hFound]
        rfl
      · rw [bodyReports_of_some k last _ hSome]
        exact hClosed
  · have hEnd := hTakes.lastIs hLast
    have hReport :=
      Cursor.takes_reportNear
        (.ofProblem (.missingBody k.text d.tokens.head?))
        d.tokens.head? hEnd
    rw [hEat]
    simp only [hPeek]
    generalize
      d.reportNear
        (.ofProblem (.missingBody k.text d.tokens.head?))
        d.tokens.head? = e at *
    have hBoth := hTakes.trans hReport
    have hSame := hReport.tokens
    rw [List.nil_append] at hSame
    refine ⟨.absent, e, ?_, ?_, ?_, ?_⟩
    · simp only [Header.close, (hReport.lastIs hEnd).1]
      rfl
    · rw [← hSame]
      exact hFits
    · rw [← hSame]
      exact hBoth
    · exact hAfter.of_takes hReport (by simp)

------------------------------------------------------------
-- Items
------------------------------------------------------------

theorem isUnknownName_iff
    (r : Registry)
    (t : Token) :
    r.isUnknownName t = true ↔ TakenForName r t := by
  unfold isUnknownName TakenForName
  cases hKind : t.kind <;> simp [contains]

/- What follows an unknown keyword is taken. -/
theorem takes_passUnknown
    {c : Cursor}
    {k : Token}
    (r : Registry)
    (hTop : c.AtTop)
    (hLast : c.LastIs k) :
    ∃ (name : Option Token) (braces : Braces),
      (∀ t, name = some t → TakenForName r t)
        ∧ (name = none →
            ∀ t,
              (braces.tokens ++ (r.passUnknown c).tokens).head?
                  = some t →
                ¬ TakenForName r t)
        ∧ braces.Fits (r.passUnknown c).tokens
        ∧ c.Takes (name.toList ++ braces.tokens)
            (braces.reports .openUnknownBlock)
            (r.passUnknown c)
        ∧ (r.passUnknown c).AtTop := by
  have hLook := c.takes_peek
  have hPeek := c.peek_eq
  have hTop' := hTop.of_takes hLook (by simp)
  have hLast' := hLook.lastIs hLast
  have hTokens : c.peek.2.tokens = c.tokens := by simp
  unfold passUnknown
  rw [hPeek]
  generalize c.peek.2 = d at *
  rcases hFound : c.tokens with _ | ⟨t, ts⟩
  · rw [hFound] at hTokens
    refine ⟨none, .absent, by simp, ?_, ?_, hLook, hTop'⟩
    · simp [Braces.tokens, hTokens]
    · simp [Braces.Fits, hTokens]
  · rw [hFound] at hTokens
    simp only [List.head?_cons]
    by_cases hName : r.isUnknownName t
    · rw [if_pos hName]
      obtain ⟨e, hNext, hTakes, -⟩ := Cursor.takes_next hTokens
      rw [isUnknownName_iff] at hName
      have hMore : e.AtTop := by
        refine hTop'.of_takes hTakes ?_
        rcases hName with h | h | ⟨h, -⟩ <;> simp [h]
      rw [hNext]
      obtain ⟨braces, hFits, hGroup, hEnd⟩ :=
        Cursor.takes_passGroup .openUnknownBlock hMore
          (hTakes.lastIs hLast')
      refine ⟨some t, braces, ?_, by simp, hFits,
        (hLook.trans hTakes).trans hGroup, hEnd⟩
      rintro s ⟨⟩
      exact hName
    · rw [if_neg hName]
      rw [isUnknownName_iff] at hName
      obtain ⟨braces, hFits, hGroup, hEnd⟩ :=
        Cursor.takes_passGroup .openUnknownBlock hTop' hLast'
      refine ⟨none, braces, by simp, ?_, hFits,
        hLook.trans hGroup, hEnd⟩
      intro _ s hHead
      rw [← hGroup.tokens, hTokens] at hHead
      obtain rfl : t = s := by simpa using hHead
      exact hName

/- What begins no block is taken with what follows it. -/
theorem takes_passStrayFrom
    {c : Cursor}
    {t : Token}
    (r : Registry)
    (hDepth : c.depth = Cursor.depthAfter 0 t.kind)
    (hLast : c.LastIs t)
    (hKind : t.kind ≠ .ident) :
    ∃ (run : List Token) (braces : Braces) (taken : List Token),
      run ++ braces.tokens = t :: taken
        ∧ (stray run braces).Fits r (passStrayFrom t c).tokens
        ∧ c.Takes taken
            ((stray run braces).reports
              (passStrayFrom t c).tokens)
            (passStrayFrom t c)
        ∧ (passStrayFrom t c).AtTop := by
  have hReport := c.takes_reportAt (.ofProblem (.strayToken t)) t
  have hSame := hReport.depth
  have hLast' := hReport.lastIs hLast
  rw [List.foldl_nil] at hSame
  unfold passStrayFrom
  simp only
  generalize c.reportAt (.ofProblem (.strayToken t)) t = d at *
  by_cases hLeft : t.kind = .lBrace
  · have hOne : d.depth = 1 := by
      rw [hSame, hDepth, hLeft]
      rfl
    obtain ⟨braces, taken, e, hSkip, hTokens, hFits, hMore,
      hAfter⟩ := Cursor.takes_body hLeft hOne
    have hEnd : e.LastIs (braces.tokens.getLastD t) := by
      rw [hTokens, List.getLastD_cons]
      exact hMore.lastIs hLast'
    have hClosed :=
      (hReport.trans hMore).trans
        (Cursor.takes_reportOpen .openGroup
          (by simp [hTokens]) hEnd)
    rw [List.nil_append, List.append_nil, List.append_nil]
      at hClosed
    have hStray :
        ∀ rest,
          braces.Fits rest → (stray [] braces).Fits r rest := by
      intro rest hRest
      refine ⟨by simp, ?_, by simp [hTokens], hRest⟩
      simp [hTokens, hLeft]
    have hReports :
        ∀ rest,
          (stray [] braces).reports rest
            = (Diagnostic.ofProblem (.strayToken t)).placeAt t
                :: braces.reports .openGroup := by
      intro rest
      simp [Item.reports, hTokens]
    refine ⟨[], braces, taken, hTokens, ?_⟩
    rw [if_pos hLeft, hOne, hSkip, hReports]
    rcases hFound : braces.isClosed with _ | _
    · rw [hFound] at hClosed
      exact ⟨hStray _ hFits, hClosed, hAfter⟩
    · rw [hFound] at hClosed
      exact ⟨hStray _ hFits, hClosed, hAfter⟩
  · rw [if_neg hLeft]
    have hTop : d.AtTop := by
      intro _
      rw [hSame, hDepth, Cursor.depthAfter_of_not_lBrace hLeft]
    obtain ⟨run, braces, hRun, hHead, hFits, hTakes, hEnd⟩ :=
      Cursor.takes_passStray hTop hLast'
    refine ⟨t :: run, braces, run ++ braces.tokens, rfl,
      ⟨?_, hHead, by simp, hFits⟩, hReport.trans hTakes, hEnd⟩
    simpa [hKind, hLeft] using hRun

/-
  A token at the top begins an item. The block that the item
  gives is read, and the item reported.
-/
theorem takes_readItem
    {r : Registry}
    {c : Cursor}
    {t : Token}
    (hBodies :
      ∀ keyword kind,
        r.lookup keyword = some kind →
          kind.body = .unstructured)
    (hDepth : c.depth = Cursor.depthAfter 0 t.kind)
    (hLast : c.LastIs t) :
    ∃ (item : Item) (taken : List Token) (d : Cursor),
      r.readItem t c = (item.block?, d)
        ∧ item.tokens = t :: taken
        ∧ item.Fits r d.tokens
        ∧ c.Takes taken (item.reports d.tokens) d
        ∧ d.AtTop := by
  unfold readItem
  by_cases hKind : t.kind = .ident
  · rw [if_pos hKind]
    have hTop : c.AtTop := by
      intro _
      rw [hDepth, hKind]
      rfl
    rcases hLookup : r.lookup t.text with _ | kind
    · have hReport :=
        c.takes_reportAt (.ofProblem (.unknownKeyword t.text)) t
      obtain ⟨name, braces, hName, hNone, hFits, hTakes,
        hEnd⟩ :=
        takes_passUnknown r (hTop.of_takes hReport (by simp))
          (hReport.lastIs hLast)
      exact ⟨.unknown t name braces, _, _, rfl, rfl,
        ⟨hKind, hLookup, hName, hNone, hFits⟩,
        hReport.trans hTakes, hEnd⟩
    · obtain ⟨name, d, hRead, hName, hTakes, hMore⟩ :=
        takes_readNamed kind hTop hLast
      obtain ⟨braces, e, hBraced, hFits, hThen, hEnd⟩ :=
        takes_readBraced t ((name.filter Token.isWord).map
          Token.text) (hBodies _ _ hLookup) hMore
          (hTakes.lastIs hLast)
      have hBoth := hTakes.trans hThen
      simp only [readKind_eq, hRead, hBraced]
      refine ⟨.block t kind.named name braces, _, e, ?_, rfl,
        ⟨hKind, ?_, ?_, hFits⟩, ?_, hEnd⟩
      · cases name with
        | none => rfl
        | some s =>
            simp only [block?, header?, isClosed,
              Option.toList_some, List.cons_append,
              List.nil_append, List.getLastD_cons,
              List.getLastD_nil, Option.map_some]
            rfl
      · rw [hLookup]
        rfl
      · rw [← hThen.tokens]
        exact hName
      · rw [Item.reports, ← hThen.tokens]
        cases name with
        | none => exact hBoth
        | some s => exact hBoth
  · rw [if_neg hKind]
    obtain ⟨run, braces, taken, hTokens, hFits, hTakes, hEnd⟩ :=
      takes_passStrayFrom r hDepth hLast hKind
    exact ⟨.stray run braces, taken, _, rfl, hTokens, hFits,
      hTakes, hEnd⟩

/-
  All tokens are read as items, one after the other. The
  cursor stays at the top from one item to the next.
-/
theorem takes_readItems
    {r : Registry}
    {c : Cursor}
    (blocks : List Block)
    (hBodies :
      ∀ keyword kind,
        r.lookup keyword = some kind →
          kind.body = .unstructured)
    (hTop : c.AtTop) :
    ∃ (items : List Item) (d : Cursor),
      r.readItems blocks c
          = (blocks.reverse ++ items.filterMap Item.block?, d)
        ∧ Splits r c.tokens items
        ∧ c.Takes c.tokens (Items.reports items) d := by
  generalize hSize : c.tokens.length = n
  induction n using Nat.strongRecOn generalizing c blocks with
  | ind n ih =>
      rcases hTokens : c.tokens with _ | ⟨t, ts⟩
      · have hNext := Cursor.next_of_tokens_nil hTokens
        rw [Registry.readItems_of_none r blocks hNext]
        exact ⟨[], _, by simp, .nil, c.takes_peek⟩
      · obtain ⟨d, hNext, hTakes, hRest⟩ :=
          Cursor.takes_next hTokens
        have hDepth : d.depth = Cursor.depthAfter 0 t.kind := by
          rw [hTakes.depth, hTop (by simp [hTokens])]
          rfl
        obtain ⟨item, taken, e, hRead, hItem, hFits, hMore,
          hAfter⟩ :=
          takes_readItem (t := t) hBodies hDepth
            ⟨hTakes.lastSpan, hTakes.lastLocation⟩
        have hBoth := hTakes.trans hMore
        rw [List.singleton_append, ← hItem] at hBoth
        have hShorter : e.tokens.length < n := by
          have hLength := congrArg List.length hBoth.tokens
          rw [List.length_append, hItem, hSize,
            List.length_cons] at hLength
          omega
        obtain ⟨items, e', hReads, hSplits, hLast⟩ :=
          ih _ hShorter (item.block?.toList ++ blocks) hAfter rfl
        have hAll := hBoth.trans hLast
        rw [Registry.readItems_of_some r blocks hNext, hRead,
          hReads, ← hTokens, hBoth.tokens]
        refine ⟨item :: items, e', ?_, .cons hFits hSplits, ?_⟩
        · cases hBlock : item.block? <;> simp [hBlock]
        · rw [Items.reports, hSplits.tokens_eq]
          exact hAll

/- Bodies that are not read have no structure. -/
theorem body_bare
    {r : Registry}
    {keyword : String}
    {kind : BlockKind}
    (hLookup : r.bare.lookup keyword = some kind) :
    kind.body = .unstructured := by
  rw [lookup_bare, Option.map_eq_some_iff] at hLookup
  obtain ⟨k, -, rfl⟩ := hLookup
  rfl

end Registry

------------------------------------------------------------
-- Items with and without Bodies
------------------------------------------------------------

/- Only keywords and naming rules count for items. -/
theorem Item.fits_bare
    {r : Registry}
    {item : Item}
    {rest : List Token} :
    item.Fits r.bare rest ↔ item.Fits r rest := by
  cases item with
  | block k named name braces =>
      simp only [Fits, Registry.lookup_bare, Option.map_map]
      rfl
  | unknown k name braces =>
      simp only [Fits, TakenForName, Registry.lookup_bare,
        Option.map_eq_none_iff]
  | stray run braces => rfl

theorem Splits.of_bare
    {r : Registry}
    {tokens : List Token}
    {items : List Item}
    (hSplits : Splits r.bare tokens items) :
    Splits r tokens items := by
  induction hSplits with
  | nil => exact .nil
  | cons hFits _ ih => exact .cons (Item.fits_bare.mp hFits) ih

namespace Item

/- Whether an item is a block. -/
def isBlock (item : Item) : Bool :=
  item.header?.isSome

/-
  The item of a block: keyword, name and place follow from
  its tokens, and without its closing brace it has failed.
-/
structure Gives (item : Item) (b : Block) : Prop where
  header : item.header? = some b.header
  failed : item.isClosed = false → b.outcome = .failed

/- A block read without its body is that of its item. -/
theorem gives_of_same
    {item : Item}
    {b b' : Block}
    (hBlock : item.block? = some b')
    (hSame :
      Simulation.outside.SameBlock Outcome.FailsWith b b') :
    item.Gives b := by
  have hHeader := Simulation.header_eq hSame
  rw [block?, Option.map_eq_some_iff] at hBlock
  obtain ⟨h, hFound, rfl⟩ := hBlock
  refine ⟨?_, fun hOpen => hSame.outcome ?_⟩
  · rw [hFound, hHeader]
    rfl
  · simp [hOpen]

/- Every block read is that of an item, in order. -/
theorem gives_blocks
    {items : List Item}
    {blocks : List Block}
    (hBlocks :
      List.Forall₂
        (Simulation.outside.SameBlock Outcome.FailsWith)
        blocks (items.filterMap block?)) :
    List.Forall₂ Gives (items.filter isBlock) blocks := by
  induction items generalizing blocks with
  | nil =>
      cases hBlocks
      exact .nil
  | cons item items ih =>
      rcases hBlock : item.block? with _ | b'
      · have hOther : item.isBlock = false := by
          simpa [block?, isBlock] using hBlock
        rw [List.filterMap_cons_none hBlock] at hBlocks
        rw [List.filter_cons_of_neg (by simp [hOther])]
        exact ih hBlocks
      · have hThis : item.isBlock = true := by
          have hSome := congrArg Option.isSome hBlock
          simpa [block?, isBlock] using hSome
        rw [List.filterMap_cons_some hBlock] at hBlocks
        rw [List.filter_cons_of_pos hThis]
        cases hBlocks with
        | cons hSame hRest =>
            exact .cons (gives_of_same hBlock hSame) (ih hRest)

end Item

------------------------------------------------------------
-- Scripts as Items
------------------------------------------------------------

namespace Script

/-
  If bodies are not read, the items of a script say all there
  is to say about it.
-/
theorem ofTokens_bare
    (r : Registry)
    (tokens : List Token) :
    ∃ items,
      Splits r tokens items
        ∧ ofTokens r.bare tokens
            = { blocks := items.filterMap Item.block?,
                diagnostics := Items.reports items } := by
  obtain ⟨items, d, hReads, hSplits, hTakes⟩ :=
    Registry.takes_readItems (r := r.bare)
      (c := .ofTokens tokens) []
      (fun _ _ hLookup => Registry.body_bare hLookup)
      (fun _ => rfl)
  obtain ⟨⟨ts, hSource⟩, hDiagnostics⟩ :=
    hTakes.listed ⟨tokens, rfl⟩
  refine ⟨items, hSplits.of_bare, ?_⟩
  simp only [ofTokens, ofCursor, hReads, Cursor.finish, hSource,
    TokenSource.drain, Array.toList_appendList, hDiagnostics]
  simp [Cursor.ofTokens]

/-
  Tokens fall into items in one way. There is one block for
  each item that is a block, in order, and what is reported
  outside of bodies is what there is to report about items.
-/
theorem ofTokens_items
    (r : Registry)
    (tokens : List Token)
    (hPlain : r.Plain) :
    ∃ items,
      Splits r tokens items
        ∧ (∀ others, Splits r tokens others → others = items)
        ∧ List.Forall₂ Item.Gives (items.filter Item.isBlock)
            (ofTokens r tokens).blocks
        ∧ Diagnostics.outsideBodies
              (ofTokens r tokens).diagnostics
            = Items.reports items
        ∧ ofTokens r.bare tokens
            = { blocks := items.filterMap Item.block?,
                diagnostics := Items.reports items } := by
  obtain ⟨items, hSplits, hBare⟩ := ofTokens_bare r tokens
  obtain ⟨hBlocks, hOutside⟩ :=
    blocks_bare hPlain (.ofTokens tokens)
  rw [← ofTokens, ← ofTokens, hBare] at hBlocks hOutside
  refine ⟨items, hSplits, fun _ hOther => hOther.unique hSplits,
    Item.gives_blocks hBlocks, ?_, hBare⟩
  rw [hOutside, Items.outsideBodies_reports]

/- A block, a block without a kind and a stray brace. -/
theorem ofTokens_items_standard :
    Registry.standard.Plain
      ∧ ∃ items,
          Splits .standard
              (tokenize "tech a \x7b \x7d other b \x7d").1 items
            ∧ List.Forall₂ Item.Gives
                (items.filter Item.isBlock)
                (ofTokens .standard
                  (tokenize
                    "tech a \x7b \x7d other b \x7d").1).blocks := by
  obtain ⟨items, hSplits, -, hBlocks, -⟩ :=
    ofTokens_items .standard
      (tokenize "tech a \x7b \x7d other b \x7d").1 (by decide)
  exact ⟨by decide, items, hSplits, hBlocks⟩

end Script
end BlockScript
