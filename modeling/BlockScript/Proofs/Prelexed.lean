import BlockScript.Proofs.Plans
import BlockScript.Proofs.Shift

/-
  This file shows that it makes no difference whether tokens
  are made while a script is parsed or all at once before.
  Only the problems with the text are reported elsewhere.

  Key definitions include:
    * `Diagnostics.lexical`
    * `Diagnostics.syntactic`
    * `Cursor.Prelexed`
    * `Simulation.prelexed`

  Key theorems include:
    * `Plan.Runs.prelexed`
    * `Simulation.bodies_prelexed`
    * `Script.ofCursor_prelexed`
    * `Script.parse_eq_ofTokens`
-/

namespace BlockScript

------------------------------------------------------------
-- Two Sorts of Diagnostics
------------------------------------------------------------

namespace Diagnostics

/- The diagnostics about the text. -/
def lexical (ds : List Diagnostic) : List Diagnostic :=
  ds.filter (·.kind.isLexical)

/- The diagnostics about tokens. -/
def syntactic (ds : List Diagnostic) : List Diagnostic :=
  ds.filter (!·.kind.isLexical)

theorem lexical_append
    (ds es : List Diagnostic) :
    lexical (ds ++ es) = lexical ds ++ lexical es :=
  List.filter_append ds es

theorem syntactic_append
    (ds es : List Diagnostic) :
    syntactic (ds ++ es) = syntactic ds ++ syntactic es :=
  List.filter_append ds es

/- Problems with the text are all about the text. -/
theorem lexical_of_all
    {ds : List Diagnostic}
    (hAll : ∀ d ∈ ds, d.kind.isLexical = true) :
    lexical ds = ds ∧ syntactic ds = [] := by
  constructor
  · exact List.filter_eq_self.mpr hAll
  · apply List.filter_eq_nil_iff.mpr
    intro d hd
    simp [hAll d hd]

/- Without problems with the text, all is about tokens. -/
theorem syntactic_of_lexical
    {ds : List Diagnostic}
    (hNone : lexical ds = []) :
    syntactic ds = ds := by
  apply List.filter_eq_self.mpr
  intro d hd
  have hKind := List.filter_eq_nil_iff.mp hNone d hd
  simpa using hKind

theorem lexical_singleton
    {d : Diagnostic}
    (hKind : d.kind.isLexical = false) :
    lexical [d] = [] ∧ syntactic [d] = [d] := by
  simp [lexical, syntactic, hKind]

end Diagnostics

------------------------------------------------------------
-- Cursors
------------------------------------------------------------

/-
  Cursors at the same token, which on the right comes from a
  list. Both have reported the same about tokens. The left
  one has reported or is still to meet `problems`, and they
  are about the text.
-/
structure Cursor.Prelexed
    (problems : List Diagnostic)
    (c c' : Cursor) : Prop where
  source : c'.source = .listed c.source.tokens
  peeked : c'.peeked = c.peeked
  depth : c'.depth = c.depth
  lastSpan : c'.lastSpan = c.lastSpan
  lastLocation : c'.lastLocation = c.lastLocation
  syntactic :
    Diagnostics.syntactic c.diagnostics.toList
      = c'.diagnostics.toList
  lexical :
    Diagnostics.lexical c.diagnostics.toList
        ++ c.source.problems
      = problems
  toCome :
    ∀ d ∈ c.source.problems, d.kind.isLexical = true

namespace Cursor.Prelexed

variable {problems : List Diagnostic}
variable {c c' : Cursor}

theorem report
    {d : Diagnostic}
    (hKind : d.kind.isLexical = false)
    (hPrelexed : Prelexed problems c c') :
    Prelexed problems (c.report d) (c'.report d) := by
  rcases Diagnostics.lexical_singleton hKind with
    ⟨hLexical, hSyntactic⟩
  refine { hPrelexed with syntactic := ?_, lexical := ?_ }
  · simp only [Cursor.report, Array.toList_push,
      Diagnostics.syntactic_append, hSyntactic,
      hPrelexed.syntactic]
  · simp only [Cursor.report, Array.toList_push,
      Diagnostics.lexical_append, hLexical, List.append_nil]
    exact hPrelexed.lexical

theorem reportAtEnd
    {d : Diagnostic}
    (hKind : d.kind.isLexical = false)
    (hPrelexed : Prelexed problems c c') :
    Prelexed problems (c.reportAtEnd d)
      (c'.reportAtEnd d) := by
  have hCheck : Prelexed problems c.checkEnd c'.checkEnd :=
    { hPrelexed with }
  unfold Cursor.reportAtEnd
  simp only [hPrelexed.lastSpan, hPrelexed.lastLocation]
  exact hCheck.report hKind

/-
  A token that is pulled brings problems with the text on the
  left only.
-/
theorem pull
    (hPrelexed : Prelexed problems c c') :
    InStep Eq (Prelexed problems) (fun _ _ => False) c.pull
      c'.pull := by
  have hNext := c.source.problems_next
  have hDrain := c.source.next.2.problems_drain
  rw [hNext] at hDrain
  have hToCome := hPrelexed.toCome
  rw [← hDrain] at hToCome
  rcases Diagnostics.lexical_of_all
    (fun d hd => hToCome d (List.mem_append_left _ hd)) with
    ⟨hLexical, hSyntactic⟩
  have hAfter :
      Prelexed problems c.pull.2
        { c' with source := .listed c.source.tokens.tail } := by
    refine ⟨?_, hPrelexed.peeked, hPrelexed.depth,
      hPrelexed.lastSpan, hPrelexed.lastLocation, ?_, ?_, ?_⟩
    · rw [Cursor.pull_tokens]
    · simp only [Cursor.pull, Array.toList_appendList,
        Diagnostics.syntactic_append, hSyntactic,
        List.append_nil]
      exact hPrelexed.syntactic
    · simp only [Cursor.pull, Array.toList_appendList,
        Diagnostics.lexical_append, hLexical,
        List.append_assoc, hDrain]
      exact hPrelexed.lexical
    · intro d hd
      exact hToCome d (List.mem_append_right _ hd)
  have hListed :
      c'.pull
        = (c.source.tokens.head?,
            { c' with
              source := .listed c.source.tokens.tail }) := by
    simp only [Cursor.pull, hPrelexed.source]
    cases c.source.tokens with
    | nil => simp [TokenSource.next, TokenSource.drain]
    | cons t ts => simp [TokenSource.next, TokenSource.drain]
  have hFirst := c.pull_fst
  rw [hListed]
  generalize c.pull = x at hAfter hFirst ⊢
  rcases x with ⟨found, d⟩
  simp only at hFirst
  rw [← hFirst]
  cases found with
  | none => exact .neither hAfter
  | some t => exact .both rfl hAfter

theorem peekedRel
    (hPrelexed : Prelexed problems c c') :
    Option.Rel Eq c.peeked c'.peeked := by
  rw [hPrelexed.peeked]
  cases c.peeked with
  | none => exact .none
  | some t => exact .some rfl

theorem keep
    {t t' : Token}
    (hPrelexed : Prelexed problems c c')
    (hToken : t = t') :
    Prelexed problems { c with peeked := some t }
      { c' with peeked := some t' } := by
  subst hToken
  exact { hPrelexed with peeked := rfl }

theorem take
    {t t' : Token}
    (hPrelexed : Prelexed problems c c')
    (hToken : t = t') :
    Prelexed problems
      (Cursor.consume { c with peeked := none } t)
      (Cursor.consume { c' with peeked := none } t') := by
  subst hToken
  refine { hPrelexed with
    peeked := rfl,
    depth := ?_,
    lastSpan := rfl,
    lastLocation := rfl }
  simp only [Cursor.consume, hPrelexed.depth]

/- A list of tokens has no problems of its own. -/
theorem finish_eq
    (hPrelexed : Prelexed problems c c') :
    c'.finish = c'.diagnostics.toList := by
  simp [Cursor.finish, hPrelexed.source, TokenSource.drain]

end Cursor.Prelexed

/- The start of a script and the start of its tokens. -/
theorem Cursor.prelexed_ofSource
    (source : String) :
    (ofSource source).Prelexed (tokenize source).2
      (ofTokens (tokenize source).1) where
  source := rfl
  peeked := rfl
  depth := rfl
  lastSpan := rfl
  lastLocation := rfl
  syntactic := rfl
  lexical := rfl
  toCome d hd := by
    rcases Lexer.kind_of_problems _ d hd with
      hPending | hKind | hKind
    · simp [Lexer.ofSource] at hPending
    · simp [hKind, DiagnosticKind.isLexical]
    · simp [hKind, DiagnosticKind.isLexical]

/- Runs over a script and over its tokens. -/
def Simulation.prelexed
    (problems : List Diagnostic) : Simulation where
  toMatching := .same
  toEnding := .together
  cursor := Cursor.Prelexed problems
  depth_eq h := h.depth
  stop h := by rw [h.lastSpan]; rfl
  peek h := .peek h h.peekedRel h.pull .keep
  next h := .next h h.peekedRel h.pull .take
  reportAt _ hKind h hToken := by
    subst hToken
    exact h.report hKind
  reportAtEnd _ hKind h := h.reportAtEnd hKind

------------------------------------------------------------
-- Bodies
------------------------------------------------------------

/- Runs over a script and over its tokens see the same. -/
theorem InStep.same
    {problems : List Diagnostic}
    {ended : Cursor → Cursor → Prop}
    {x x' : Option Token × Cursor}
    (hNever : ∀ d d', ¬ ended d d')
    (hStep :
      InStep Eq (Cursor.Prelexed problems) ended x x') :
    x'.1 = x.1 ∧ Cursor.Prelexed problems x.2 x'.2 := by
  cases hStep with
  | both hToken hCursor => exact ⟨by rw [hToken], hCursor⟩
  | neither hCursor => exact ⟨rfl, hCursor⟩
  | left hEnded => exact absurd hEnded (hNever _ _)

namespace Plan

variable {problems : List Diagnostic}
variable {c c' : Cursor}
variable {p : Plan}

/- A plan makes the same move at both cursors. -/
theorem step_prelexed
    (s : p.State)
    (hPrelexed : c.Prelexed problems c') :
    (∃ h result,
      p.step s c = .inl (h, result)
        ∧ p.step s c' = .inl (h, result))
      ∨ ∃ s' d d',
          p.step s c = .inr (s', d)
            ∧ p.step s c' = .inr (s', d')
            ∧ d.Prelexed problems d' := by
  unfold step
  rcases p.move s with ⟨h, result⟩ | go | go | go | go |
    ⟨x, hKind, after⟩ | ⟨x, hKind, after⟩
  · exact .inl ⟨h, result, rfl, rfl⟩
  · rcases InStep.same (fun _ _ h => h)
      ((Simulation.prelexed problems).peek hPrelexed) with
      ⟨hSame, hAfter⟩
    exact .inr ⟨_, _, _, rfl, by rw [hSame], hAfter⟩
  · rcases InStep.same (fun _ _ h => h (.ofProblem .openGroup))
      ((Simulation.prelexed problems).next hPrelexed) with
      ⟨hSame, hAfter⟩
    exact .inr ⟨_, _, _, rfl, by rw [hSame], hAfter⟩
  · exact .inr ⟨_, _, _, rfl, by rw [hPrelexed.depth],
      hPrelexed⟩
  · exact .inr ⟨_, _, _, rfl, by rw [hPrelexed.lastSpan],
      hPrelexed⟩
  · exact .inr ⟨_, _, _, rfl, rfl, hPrelexed.report hKind⟩
  · exact .inr ⟨_, _, _, rfl, rfl, hPrelexed.reportAtEnd hKind⟩

/- So a plan comes to the same result at both. -/
theorem Runs.prelexed
    {s : p.State}
    {h : Header}
    {x : Reading (List Field)}
    (hRuns : p.Runs s c h x)
    (hPrelexed : c.Prelexed problems c') :
    ∃ d',
      p.Runs s c' h (x.1, d') ∧ x.2.Prelexed problems d' := by
  induction hRuns generalizing c' with
  | @finish s c h result hStep =>
      rcases step_prelexed s hPrelexed with
        ⟨h', other, hLeft, hRight⟩ | ⟨s', d, d', hLeft, -, -⟩
      · rw [hStep, Sum.inl.injEq, Prod.mk.injEq] at hLeft
        rcases hLeft with ⟨rfl, rfl⟩
        exact ⟨c', .finish hRight, hPrelexed⟩
      · simp [hStep] at hLeft
  | @move s s' c d h x hStep hRest ih =>
      rcases step_prelexed s hPrelexed with
        ⟨h', other, hLeft, -⟩
          | ⟨s'', e, e', hLeft, hRight, hAfter⟩
      · simp [hStep] at hLeft
      · rw [hStep, Sum.inr.injEq, Prod.mk.injEq] at hLeft
        rcases hLeft with ⟨rfl, rfl⟩
        rcases ih hAfter with ⟨d', hRuns, hEnd⟩
        exact ⟨d', .move hRight hRuns, hEnd⟩

end Plan

namespace Simulation

variable {problems : List Diagnostic}

theorem sameFields_refl
    (fields : List Field) :
    List.Forall₂ (prelexed problems).SameField fields fields := by
  induction fields with
  | nil => exact .nil
  | cons f fields ih => exact .cons ⟨rfl, rfl, rfl, rfl⟩ ih

theorem reportMalformed_prelexed
    {h h' : Header}
    {c c' : Cursor}
    (cause : Malformation)
    (blamed : Option Token)
    (hHeader : (prelexed problems).SameHeader h h')
    (hPrelexed : c.Prelexed problems c') :
    (h.reportMalformed cause blamed c).Prelexed problems
      (h'.reportMalformed cause blamed c') := by
  unfold Header.reportMalformed
  simp only [hHeader.keyword_eq]
  cases blamed with
  | none => exact hPrelexed.report rfl
  | some t => exact hPrelexed.report rfl

/- Headers in step are the same. -/
theorem header_eq_of_prelexed
    {h h' : Header}
    (hHeader : (prelexed problems).SameHeader h h') :
    h' = h := by
  rcases hHeader with ⟨hKeyword, hName, hStart, hStop⟩
  rcases h with ⟨keyword, name, start, stop⟩
  rcases h' with ⟨keyword', name', start', stop'⟩
  simp only [prelexed, Matching.same] at hStart hStop
  simp_all

/- A body that follows a plan is read alike. -/
theorem bodies_custom
    {g : Grammar}
    {p : Plan}
    (hFollows : g.Follows p) :
    (prelexed problems).Bodies (prelexed problems).SameOutcome
      (.custom g) (.custom g) := by
  intro h h' c c' hHeader _ hCursor
  obtain rfl := header_eq_of_prelexed hHeader
  rcases (hFollows h' c).prelexed hCursor with
    ⟨d', hRuns, hAfter⟩
  rcases (hFollows h' c').unique hRuns with ⟨hLeft, hRead⟩
  have hDepth : c'.depth = c.depth := hCursor.depth
  have hSame :
      (prelexed problems).SameHeader (g.header h' c)
        (g.header h' c) :=
    ⟨rfl, rfl, rfl, rfl⟩
  simp only [Header.readBlock, Body.header, Body.read, hLeft,
    hRead, hDepth]
  generalize g.read h' c = x at hAfter ⊢
  rcases x with ⟨e | fields, d⟩
  · cases e with
    | malformed cause blamed =>
        exact skipToClose_closes c.depth hSame .failed .failed
          (reportMalformed_prelexed cause blamed hSame hAfter)
    | unexpectedEof => exact closeAtEnd hSame .failed hAfter
  · exact skipToClose_closes c.depth hSame
      (.parsed (sameFields_refl fields)) .failed hAfter

theorem bodies_prelexed
    {body : Body}
    (hReads : body.ReadsByCursor) :
    (prelexed problems).Bodies (prelexed problems).SameOutcome
      body body := by
  cases body with
  | unstructured => exact bodies_unstructured
  | table table => exact bodies_table table
  | custom g =>
      rcases hReads with ⟨p, hFollows⟩
      exact bodies_custom hFollows

theorem registries_prelexed
    {r : Registry}
    (hReads : ∀ kind ∈ r.table.kinds, kind.body.ReadsByCursor) :
    (prelexed problems).Registries
      (prelexed problems).SameOutcome r r where
  failed := .failed
  lookup {t t'} _ _ := by
    rcases hLookup : r.lookup t.text with _ | kind
    · exact .none
    · have hMember := KindTable.mem_kinds_of_get? hLookup
      exact .some ⟨rfl, bodies_prelexed (hReads kind hMember)⟩
  endsAtWords _ _ h := h.elim
  keyword h := h.elim

end Simulation

------------------------------------------------------------
-- Scripts
------------------------------------------------------------

/- A registry without bodies of its own reads by the cursor. -/
theorem Registry.Plain.readsByCursor
    {r : Registry}
    (hPlain : r.Plain) :
    ∀ kind ∈ r.table.kinds, kind.body.ReadsByCursor := by
  intro kind hKind
  have hBody := hPlain kind hKind
  cases hCustom : kind.body with
  | unstructured => trivial
  | table table => trivial
  | custom g => simp [hCustom, Body.isCustom] at hBody

namespace Script

/- Related cursors give the same script. -/
theorem ofCursor_prelexed
    {r : Registry}
    {problems : List Diagnostic}
    {c c' : Cursor}
    (hReads : ∀ kind ∈ r.table.kinds, kind.body.ReadsByCursor)
    (hPrelexed : c.Prelexed problems c') :
    (ofCursor r c').blocks = (ofCursor r c).blocks
      ∧ (ofCursor r c').diagnostics
          = Diagnostics.syntactic (ofCursor r c).diagnostics
      ∧ Diagnostics.lexical (ofCursor r c).diagnostics
          = problems := by
  rcases Simulation.readItems_total
    (Simulation.registries_prelexed hReads)
    (fun _ _ h => h) (fun _ h => h) .nil hPrelexed with
    ⟨hBlocks, hAfter⟩
  have hOffset :
      ∀ n n',
        (Simulation.prelexed problems).offset n n' →
          n' = n + Shift.none.bytes :=
    fun _ _ h => Eq.symm h
  have hSame := Simulation.blocks_shift hOffset hBlocks
  rw [funext Block.shift_none, List.map_id'] at hSame
  rcases r.readItems_ended [] c with ⟨d, -, hNext⟩
  rcases Cursor.found_of_ended hNext with
    ⟨-, -, hProblems, hFinish⟩
  simp only [ofCursor]
  rw [hFinish, hAfter.finish_eq, hAfter.syntactic]
  refine ⟨hSame, rfl, ?_⟩
  have hLexical := hAfter.lexical
  rwa [hProblems, List.append_nil] at hLexical

/- The problems with its text are reported about a script. -/
theorem lexical_parse
    {r : Registry}
    (source : String)
    (hPlain : r.Plain) :
    Diagnostics.lexical (parse r source).diagnostics
      = (tokenize source).2 :=
  (ofCursor_prelexed hPlain.readsByCursor
    (Cursor.prelexed_ofSource source)).2.2

/-
  A script is read in the same way whether its tokens are
  made as they are needed or all at once. The same blocks are
  read, the same is reported about tokens in the same order,
  and what else is reported are the problems with the text.
-/
theorem parse_eq_ofTokens
    (r : Registry)
    (source : String)
    (hReads : ∀ kind ∈ r.table.kinds, kind.body.ReadsByCursor) :
    (parse r source).blocks
        = (ofTokens r (tokenize source).1).blocks
      ∧ Diagnostics.syntactic (parse r source).diagnostics
          = (ofTokens r (tokenize source).1).diagnostics
      ∧ Diagnostics.lexical (parse r source).diagnostics
          = (tokenize source).2 := by
  rcases ofCursor_prelexed hReads
    (Cursor.prelexed_ofSource source) with
    ⟨hBlocks, hSyntactic, hLexical⟩
  exact ⟨hBlocks.symm, hSyntactic.symm, hLexical⟩

/- A registry whose blocks take two tokens each. -/
def pairs : Registry :=
  Registry.empty.add
    { keyword := "pair",
      named := true,
      body :=
        .custom
          (Steps.grammar
            { count := 2,
              records := true,
              ending := .malformedAtLast "bad pair" }) }

/- A string that is not closed, in a body that is refused. -/
theorem parse_eq_ofTokens_pairs :
    (∀ kind ∈ pairs.table.kinds, kind.body.ReadsByCursor)
      ∧ (parse pairs "pair a \x7b b \"c").blocks
          = (ofTokens pairs
              (tokenize "pair a \x7b b \"c").1).blocks
      ∧ Diagnostics.syntactic
            (parse pairs "pair a \x7b b \"c").diagnostics
          = (ofTokens pairs
              (tokenize "pair a \x7b b \"c").1).diagnostics
      ∧ Diagnostics.lexical
            (parse pairs "pair a \x7b b \"c").diagnostics
          = (tokenize "pair a \x7b b \"c").2 := by
  have hReads :
      ∀ kind ∈ pairs.table.kinds, kind.body.ReadsByCursor := by
    intro kind hKind
    rw [List.mem_singleton.mp hKind]
    exact ⟨_, Steps.follows_plan _⟩
  exact ⟨hReads, parse_eq_ofTokens pairs _ hReads⟩

end Script
end BlockScript
