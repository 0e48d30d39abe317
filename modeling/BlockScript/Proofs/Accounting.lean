import BlockScript.Proofs.Tallies

/-
  This file shows that blocks and reports account for each
  other. Every round balances what it reads against what it
  reports, and the sums over all rounds are those of the
  script.

  Key definitions include:
    * `Round.reported`
    * `Round.isCut`
    * `Round.Balances`
    * `Script.Accounted`

  Key theorems include:
    * `Registry.added_readItem`
    * `Registry.finish_readItems`
    * `Script.blocks_account_for_reports`
-/

namespace BlockScript

------------------------------------------------------------
-- Counting Reports
------------------------------------------------------------

namespace Diagnostics

@[simp]
theorem ofKind_append
    (kind : DiagnosticKind)
    (ds es : List Diagnostic) :
    ofKind kind (ds ++ es) = ofKind kind ds ++ ofKind kind es :=
  List.filter_append ds es

/- Reports that are not about the text are counted by kind. -/
theorem length_ofKind
    {kind : DiagnosticKind}
    (ds : List Diagnostic)
    (hOther : kind.isLexical = false) :
    (ofKind kind ds).length
      = ((ds.filter (!·.kind.isLexical)).map
          Diagnostic.kind).count kind := by
  induction ds with
  | nil => rfl
  | cons d ds ih =>
      rw [← List.singleton_append, ofKind_append,
        List.filter_append, List.map_append, List.count_append,
        List.length_append, ih, Nat.add_right_cancel_iff]
      by_cases hKind : d.kind = kind
      · simp [ofKind, hKind, hOther]
      · rcases hLexical : d.kind.isLexical with _ | _ <;>
          simp [ofKind, hKind, hLexical]

/- Problems with the text are of no other kind. -/
theorem ofKind_of_lexical
    {kind : DiagnosticKind}
    {ds : List Diagnostic}
    (hOther : kind.isLexical = false)
    (hLexical : ∀ d ∈ ds, d.kind.isLexical = true) :
    ofKind kind ds = [] := by
  rw [ofKind, List.filter_eq_nil_iff]
  intro d hd hKind
  have hText := hLexical d hd
  rw [beq_iff_eq.mp hKind, hOther] at hText
  simp at hText

/- What can only be reported last is reported once. -/
theorem length_ofKind_le_one
    {kind : DiagnosticKind}
    {ds : List Diagnostic}
    (hLast : ∀ d ∈ ds.dropLast, d.kind ≠ kind) :
    (ofKind kind ds).length ≤ 1 := by
  rcases List.eq_nil_or_concat' ds with rfl | ⟨es, d, rfl⟩
  · simp [ofKind]
  · rw [List.dropLast_concat] at hLast
    have hNone : ofKind kind es = [] := by
      simpa [ofKind] using hLast
    rw [ofKind_append, hNone, List.nil_append]
    exact List.length_filter_le (·.kind == kind) [d]

/- Errors of three kinds are errors. -/
theorem length_errors_le
    (ds : List Diagnostic) :
    (ofKind .missingBody ds).length
        + (ofKind .malformedBody ds).length
        + (ofKind .unexpectedEof ds).length
      ≤ (errors ds).length := by
  induction ds with
  | nil => exact Nat.le_refl _
  | cons d ds ih =>
      have hErrors :
          errors (d :: ds) = errors [d] ++ errors ds :=
        List.filter_append [d] ds
      have hOne :
          (ofKind .missingBody [d]).length
              + (ofKind .malformedBody [d]).length
              + (ofKind .unexpectedEof [d]).length
            ≤ (errors [d]).length := by
        cases hKind : d.kind <;>
          simp [ofKind, errors, Diagnostic.isError,
            Diagnostic.severity, DiagnosticKind.severity, hKind]
      rw [hErrors, ← List.singleton_append]
      simp only [ofKind_append, List.length_append]
      omega

end Diagnostics

------------------------------------------------------------
-- Rounds
------------------------------------------------------------

namespace Round

/-
  What is reported while a round lasts, problems with the
  text among it.
-/
def reported (x : Round) : List Diagnostic :=
  x.after.diagnostics.toList.drop x.head.diagnostics.size

/- Whether something of a kind is reported in a round. -/
def reports
    (x : Round)
    (kind : DiagnosticKind) : Bool :=
  x.reported.any (·.kind == kind)

/-
  Whether a round reads a block and reports that input ended
  inside it, but not that its body is malformed.
-/
def isCut (x : Round) : Bool :=
  x.block.isSome && x.reports .unexpectedEof
    && !x.reports .malformedBody

/-
  The block of a round against what it reports: a name that
  is missing is reported, and a block that failed has failed
  for one reason that is reported.
-/
structure Balances
    (r : Registry)
    (x : Round) : Prop where
  names :
    (Diagnostics.ofKind .missingName x.reported).length
      = (x.block.toList.filter r.lacksName).length
  failures :
    (x.block.toList.filter (·.isFailed)).length
      = (Diagnostics.ofKind .missingBody x.reported).length
          + (Diagnostics.ofKind .malformedBody x.reported).length
          + if x.isCut then 1 else 0

theorem reported_eq
    {x : Round}
    {new : List Diagnostic}
    (hNew :
      x.after.diagnostics.toList
        = x.head.diagnostics.toList ++ new) :
    x.reported = new := by
  rw [reported, hNew, ← Array.length_toList, List.drop_left]

/- A round that follows a tally balances. -/
theorem balances_of_tally
    {r : Registry}
    {x : Round}
    {kinds : List DiagnosticKind}
    (hTally : r.Tally x.block kinds)
    (hKinds :
      (x.reported.filter (!·.kind.isLexical)).map Diagnostic.kind
        = kinds) :
    x.Balances r := by
  have hCount :
      ∀ kind : DiagnosticKind,
        kind.isLexical = false →
          (Diagnostics.ofKind kind x.reported).length
            = kinds.count kind := by
    intro kind hOther
    rw [Diagnostics.length_ofKind x.reported hOther, hKinds]
  have hReports :
      ∀ kind : DiagnosticKind,
        kind.isLexical = false →
          (x.reports kind = true ↔ kind ∈ kinds) := by
    intro kind hOther
    rw [← List.count_pos_iff, ← hCount kind hOther,
      List.length_pos_iff_exists_mem]
    simp [reports, Diagnostics.ofKind]
  refine ⟨?_, ?_⟩
  · rw [hCount _ rfl, hTally.count_missingName]
  · have hCut :
        x.isCut = true
          ↔ x.block.isSome ∧ .unexpectedEof ∈ kinds
              ∧ .malformedBody ∉ kinds := by
      rw [← hReports _ rfl, ← hReports _ rfl]
      simp [isCut, and_assoc]
    rw [hTally.count_failed, hCount .missingBody rfl,
      hCount .malformedBody rfl]
    simp only [hCut]

/- Sums over rounds that balance. -/
theorem sum_balances
    {r : Registry}
    {rounds : List Round}
    (hAll : ∀ x ∈ rounds, x.Balances r) :
    (Diagnostics.ofKind .missingName
        (rounds.flatMap reported)).length
        = ((rounds.filterMap block).filter r.lacksName).length
      ∧ ((rounds.filterMap block).filter (·.isFailed)).length
        = (Diagnostics.ofKind .missingBody
              (rounds.flatMap reported)).length
            + (Diagnostics.ofKind .malformedBody
                (rounds.flatMap reported)).length
            + rounds.countP isCut := by
  induction rounds with
  | nil => exact ⟨rfl, rfl⟩
  | cons x rounds ih =>
      obtain ⟨hNames, hFailures⟩ :=
        ih fun y hy => hAll y (List.mem_cons_of_mem x hy)
      have hFirst := hAll x List.mem_cons_self
      have hBlocks :
          (x :: rounds).filterMap block
            = x.block.toList ++ rounds.filterMap block := by
        cases hBlock : x.block <;> simp [hBlock]
      rw [hBlocks, List.flatMap_cons]
      simp only [Diagnostics.ofKind_append, List.filter_append,
        List.length_append, List.countP_cons]
      have hName := hFirst.names
      have hFailure := hFirst.failures
      exact ⟨by omega, by omega⟩

/- A round that cuts a block off reports the end of input. -/
theorem countP_isCut_le
    (rounds : List Round) :
    rounds.countP isCut
      ≤ (Diagnostics.ofKind .unexpectedEof
          (rounds.flatMap reported)).length := by
  induction rounds with
  | nil => exact Nat.le_refl _
  | cons x rounds ih =>
      rw [List.countP_cons, List.flatMap_cons,
        Diagnostics.ofKind_append, List.length_append]
      split
      · rename_i hCut
        have hPositive :
            0 < (Diagnostics.ofKind .unexpectedEof
                  x.reported).length := by
          rw [isCut] at hCut
          simp only [Bool.and_eq_true, reports,
            List.any_eq_true] at hCut
          obtain ⟨⟨-, d, hd, hKind⟩, -⟩ := hCut
          exact List.length_pos_of_mem
            (List.mem_filter.mpr ⟨hd, hKind⟩)
        omega
      · omega

end Round

------------------------------------------------------------
-- One Round
------------------------------------------------------------

namespace Registry

/-
  What a round adds to the reports: a tally of what it reads,
  and problems with the text that the source has brought.
-/
theorem added_readItem
    {r : Registry}
    {c d : Cursor}
    {t : Token}
    (hPlain : r.Plain)
    (hLexical :
      ∀ x ∈ c.source.problems, x.kind.isLexical = true)
    (hNext : c.next = (some t, d)) :
    ∃ kinds new,
      r.Tally (r.readItem t d).1 kinds
        ∧ (r.readItem t d).2.diagnostics.toList
            = c.diagnostics.toList ++ new
        ∧ (new.filter (!·.kind.isLexical)).map Diagnostic.kind
            = kinds
        ∧ (r.readItem t d).2.source.problems
            ⊆ c.source.problems
        ∧ (.unexpectedEof ∈ kinds →
            (r.readItem t d).2.CutOff) := by
  have hTaken := Cursor.Logs.of_next hNext
  obtain ⟨kinds, hTally, hTells⟩ :=
    tells_readItem t d hPlain
  obtain ⟨⟨ds, hLogs, hKinds⟩, hCut⟩ :=
    Cursor.Tells.after hTaken hTells
  obtain ⟨new, hNew, hOwn, hBrought⟩ :=
    hLogs.added (·.kind.isLexical) hLexical
      (by
        intro x hx
        apply hTally.isLexical
        rw [← hKinds]
        exact List.mem_map_of_mem hx)
  refine ⟨kinds, new, hTally, hNew, by rw [hOwn, hKinds], ?_,
    hCut⟩
  rw [← hBrought]
  exact List.subset_append_right _ _

/- Every round balances. -/
theorem balances_of_mem_rounds
    {r : Registry}
    {c : Cursor}
    (hPlain : r.Plain)
    (hLexical :
      ∀ x ∈ c.source.problems, x.kind.isLexical = true) :
    ∀ x ∈ r.rounds c, x.Balances r := by
  have hHeads :=
    rounds_invariant (r := r) (c := c)
      (P := fun c =>
        ∀ x ∈ c.source.problems, x.kind.isLexical = true)
      hLexical
      (by
        intro d e t hBefore hNext
        obtain ⟨-, -, -, -, -, hLess, -⟩ :=
          added_readItem hPlain hBefore hNext
        exact fun x hx => hBefore x (hLess hx))
  intro x hx
  obtain ⟨d, hNext, hRead⟩ := Round.readItem_eq hx
  obtain ⟨kinds, new, hTally, hNew, hKinds, -⟩ :=
    added_readItem hPlain (hHeads x hx).1 hNext
  rw [hRead] at hTally hNew
  rw [← Round.reported_eq hNew] at hKinds
  exact Round.balances_of_tally hTally hKinds

------------------------------------------------------------
-- The End of Input
------------------------------------------------------------

/- Once input has ended there is nothing more to report. -/
theorem finish_of_ended
    {c : Cursor}
    (r : Registry)
    (blocks : List Block)
    (hEnded : c.Ended) :
    (r.readItems blocks c).2.finish = c.diagnostics.toList := by
  have hNext := Cursor.next_of_tokens_nil hEnded.tokens
  obtain ⟨-, -, hProblems, hFinish⟩ :=
    Cursor.found_of_ended hNext
  have hFound := c.found_peek
  rw [Cursor.found, Cursor.found, hProblems, hEnded.problems,
    List.append_nil, List.append_nil] at hFound
  rw [Registry.readItems_of_none r blocks hNext, hFinish, hFound]

end Registry

/-
  If the last of some reports is that input has ended, and no
  other in their tally is, then no other is at all.
-/
theorem Diagnostics.ne_unexpectedEof_of_last
    {ds : List Diagnostic}
    {kinds : List DiagnosticKind}
    (hKinds :
      (ds.filter (!·.kind.isLexical)).map Diagnostic.kind
        = kinds)
    (hTally : .unexpectedEof ∉ kinds.dropLast)
    (hLast :
      ∃ d ∈ ds.getLast?, d.kind = .unexpectedEof) :
    ∀ d ∈ ds.dropLast, d.kind ≠ .unexpectedEof := by
  obtain ⟨l, hl, hEnd⟩ := hLast
  obtain ⟨front, rfl⟩ := List.getLast?_eq_some_iff.mp hl
  have hText : l.kind.isLexical = false := by
    rw [hEnd]
    rfl
  rw [List.filter_append,
    List.filter_cons_of_pos (by simp [hText]), List.map_append]
    at hKinds
  rw [← hKinds] at hTally
  simp only [List.filter_nil, List.map_cons, List.map_nil,
    List.dropLast_concat] at hTally ⊢
  intro d hd hKind
  refine hTally (List.mem_map.mpr ⟨d, ?_, hKind⟩)
  exact List.mem_filter.mpr ⟨hd, by rw [hKind]; rfl⟩

namespace Registry

/-
  All that is reported is reported in rounds, apart from
  problems with the text after the last one. The end of input
  is reported at the very end. The induction is on the items
  that are read.
-/
theorem finish_readItems
    {r : Registry}
    {c : Cursor}
    (blocks : List Block)
    (hPlain : r.Plain)
    (hLexical :
      ∀ x ∈ c.source.problems, x.kind.isLexical = true) :
    ∃ late,
      (r.readItems blocks c).2.finish
          = c.diagnostics.toList
              ++ ((r.rounds c).flatMap Round.reported ++ late)
        ∧ (∀ x ∈ late, x.kind.isLexical = true)
        ∧ ∀ x ∈ ((r.rounds c).flatMap Round.reported
              ++ late).dropLast,
            x.kind ≠ .unexpectedEof := by
  fun_induction readItems r blocks c with
  | case1 blocks c d hNext =>
      obtain ⟨-, -, hProblems, hFinish⟩ :=
        Cursor.found_of_ended hNext
      have hFound := c.found_next
      rw [hNext, Cursor.found, Cursor.found, hProblems,
        List.append_nil] at hFound
      rw [rounds_of_none r hNext]
      refine ⟨c.source.problems, by rw [hFinish, hFound]; rfl,
        hLexical, ?_⟩
      intro x hx hKind
      have hText := hLexical x (List.dropLast_subset _ hx)
      simp [hKind, DiagnosticKind.isLexical] at hText
  | case2 blocks c t d hNext item ih =>
      obtain ⟨kinds, new, hTally, hNew, hKinds, hLess, hCut⟩ :=
        added_readItem hPlain hLexical hNext
      obtain ⟨late, hFinish, hLate, hLast⟩ :=
        ih fun x hx => hLexical x (hLess hx)
      rw [rounds_of_some r hNext, List.flatMap_cons,
        Round.reported_eq hNew]
      refine ⟨late, ?_, hLate, ?_⟩
      · rw [hFinish, hNew]
        simp only [List.append_assoc]
        rfl
      rw [List.append_assoc]
      change ∀ x ∈ (new
        ++ ((r.rounds item.2).flatMap Round.reported
          ++ late)).dropLast, x.kind ≠ .unexpectedEof
      generalize
        (r.rounds item.2).flatMap Round.reported ++ late = rest
        at hFinish hLast ⊢
      by_cases hEnd : .unexpectedEof ∈ kinds
      · -- Input has ended, so this is the last round.
        obtain ⟨hEnded, l, hl, hKind⟩ := hCut hEnd
        rw [finish_of_ended r _ hEnded, List.self_eq_append_right]
          at hFinish
        rw [hFinish, List.append_nil]
        refine Diagnostics.ne_unexpectedEof_of_last hKinds
          hTally.ne_unexpectedEof ⟨l, ?_, hKind⟩
        have hSome : new ≠ [] := by
          rintro rfl
          rw [← hKinds] at hEnd
          simp at hEnd
        rwa [hNew, List.getLast?_append_of_ne_nil _ hSome] at hl
      · have hOthers : ∀ x ∈ new, x.kind ≠ .unexpectedEof := by
          intro x hx hKind
          apply hEnd
          rw [← hKinds, ← hKind]
          exact List.mem_map_of_mem
            (List.mem_filter.mpr ⟨hx, by rw [hKind]; rfl⟩)
        intro x hx
        rcases rest with _ | ⟨y, rest⟩
        · rw [List.append_nil] at hx
          exact hOthers x (List.dropLast_subset _ hx)
        · rw [List.dropLast_append_of_ne_nil (by simp)] at hx
          rcases List.mem_append.mp hx with hx | hx
          · exact hOthers x hx
          · exact hLast x hx

end Registry

------------------------------------------------------------
-- Scripts
------------------------------------------------------------

namespace Script

/-
  The blocks of a script that is read in some rounds against
  what is reported about it. All reports are made in rounds,
  but for problems with the text at the end. A block has
  failed because it has no body, because this is malformed,
  or because input ended inside it with nothing else wrong.
  If nothing is an error, all blocks were read, and have the
  names that they need.
-/
structure Accounted
    (s : Script)
    (r : Registry)
    (rounds : List Round) : Prop where
  blocks : s.blocks = rounds.filterMap Round.block
  reports :
    ∃ late,
      s.diagnostics = rounds.flatMap Round.reported ++ late
        ∧ ∀ x ∈ late, x.kind.isLexical = true
  names :
    (Diagnostics.ofKind .missingName s.diagnostics).length
      = (s.blocks.filter r.lacksName).length
  failures :
    s.failedBlocks.length
      = (Diagnostics.ofKind .missingBody s.diagnostics).length
          + (Diagnostics.ofKind .malformedBody
              s.diagnostics).length
          + if rounds.any Round.isCut then 1 else 0
  ends :
    (Diagnostics.ofKind .unexpectedEof s.diagnostics).length ≤ 1
  endsLast :
    ∀ x ∈ s.diagnostics,
      x.kind = .unexpectedEof →
        s.diagnostics.getLast? = some x
  errors :
    s.failedBlocks.length
      ≤ (Diagnostics.errors s.diagnostics).length
  clean :
    Diagnostics.errors s.diagnostics = [] →
      ∀ b ∈ s.blocks,
        (∃ fields, b.outcome = .parsed fields)
          ∧ ∀ kind,
              r.lookup b.keyword = some kind →
                kind.named = true →
                  b.name.isSome = true

/- One or none, as a count and as a search. -/
theorem countP_eq_any
    {rounds : List Round}
    (hOnce : rounds.countP Round.isCut ≤ 1) :
    rounds.countP Round.isCut
      = if rounds.any Round.isCut then 1 else 0 := by
  split
  · rename_i hAny
    have hPositive : 0 < rounds.countP Round.isCut := by
      rw [List.countP_pos_iff]
      simpa using hAny
    omega
  · rename_i hNone
    rw [List.countP_eq_zero]
    simpa using hNone

/- Without errors nothing has failed and no name is missing. -/
theorem clean_of_errors
    {s : Script}
    {r : Registry}
    (hNames :
      (Diagnostics.ofKind .missingName s.diagnostics).length
        = (s.blocks.filter r.lacksName).length)
    (hFailures :
      s.failedBlocks.length
        ≤ (Diagnostics.errors s.diagnostics).length)
    (hClean : Diagnostics.errors s.diagnostics = []) :
    ∀ b ∈ s.blocks,
      (∃ fields, b.outcome = .parsed fields)
        ∧ ∀ kind,
            r.lookup b.keyword = some kind →
              kind.named = true →
                b.name.isSome = true := by
  intro b hb
  refine ⟨?_, ?_⟩
  · have hNone : s.failedBlocks = [] := by
      rw [hClean] at hFailures
      exact List.eq_nil_of_length_eq_zero
        (Nat.le_zero.mp hFailures)
    rw [failedBlocks, List.filter_eq_nil_iff] at hNone
    have hRead := hNone b hb
    rcases b with ⟨keyword, name, span, _ | _⟩
    · exact ⟨_, rfl⟩
    · simp [Block.isFailed] at hRead
  · intro kind hLookup hNamed
    have hNone :
        Diagnostics.ofKind .missingName s.diagnostics = [] := by
      rw [Diagnostics.errors, List.filter_eq_nil_iff] at hClean
      rw [Diagnostics.ofKind, List.filter_eq_nil_iff]
      intro x hx hKind
      apply hClean x hx
      rw [Diagnostic.isError, Diagnostic.severity,
        beq_iff_eq.mp hKind]
      rfl
    rw [hNone, List.length_nil] at hNames
    have hOthers := List.eq_nil_of_length_eq_zero hNames.symm
    rw [List.filter_eq_nil_iff] at hOthers
    have hName := hOthers b hb
    rw [Registry.lacksName, hLookup, Option.any_some, hNamed,
      Bool.and_true] at hName
    simpa [Option.isSome_iff_ne_none] using hName

/- A run whose source only has problems with the text. -/
theorem accounted_ofCursor
    {r : Registry}
    {c : Cursor}
    (hPlain : r.Plain)
    (hNew : c.diagnostics = #[])
    (hLexical :
      ∀ x ∈ c.source.problems, x.kind.isLexical = true) :
    (ofCursor r c).Accounted r (r.rounds c) := by
  have hBlocks :
      (ofCursor r c).blocks
        = (r.rounds c).filterMap Round.block :=
    r.readItems_eq_rounds [] c
  obtain ⟨late, hFinish, hLate, hLast⟩ :=
    Registry.finish_readItems [] hPlain hLexical
  rw [hNew, List.nil_append] at hFinish
  have hReports :
      (ofCursor r c).diagnostics
        = (r.rounds c).flatMap Round.reported ++ late :=
    hFinish
  have hOfKind :
      ∀ kind : DiagnosticKind,
        kind.isLexical = false →
          Diagnostics.ofKind kind (ofCursor r c).diagnostics
            = Diagnostics.ofKind kind
                ((r.rounds c).flatMap Round.reported) := by
    intro kind hOther
    rw [hReports, Diagnostics.ofKind_append,
      Diagnostics.ofKind_of_lexical hOther hLate,
      List.append_nil]
  rw [← hReports] at hLast
  have hEnds := Diagnostics.length_ofKind_le_one hLast
  obtain ⟨hNames, hFailures⟩ :=
    Round.sum_balances
      (Registry.balances_of_mem_rounds hPlain hLexical)
  rw [← hBlocks, ← hOfKind _ rfl] at hNames
  rw [← hBlocks, ← hOfKind _ rfl, ← hOfKind _ rfl] at hFailures
  have hCut := Round.countP_isCut_le (r.rounds c)
  rw [← hOfKind _ rfl] at hCut
  have hErrors :
      (ofCursor r c).failedBlocks.length
        ≤ (Diagnostics.errors
            (ofCursor r c).diagnostics).length := by
    have hKinds :=
      Diagnostics.length_errors_le (ofCursor r c).diagnostics
    rw [failedBlocks]
    omega
  refine ⟨hBlocks, ⟨late, hReports, hLate⟩, hNames, ?_, hEnds, ?_,
    hErrors, clean_of_errors hNames hErrors⟩
  · rw [failedBlocks, hFailures, countP_eq_any (by omega)]
  · intro x hx hKind
    rcases List.eq_nil_or_concat'
      (ofCursor r c).diagnostics with hNil | ⟨front, y, hAll⟩
    · rw [hNil] at hx
      simp at hx
    · rw [hAll, List.dropLast_concat] at hLast
      rw [hAll] at hx ⊢
      rcases List.mem_append.mp hx with hx | hx
      · exact absurd hKind (hLast x hx)
      · rw [List.mem_singleton.mp hx]
        exact List.getLast?_concat

/-
  Blocks and reports account for each other, in every script
  and in every list of tokens.
-/
theorem blocks_account_for_reports
    (r : Registry)
    (hPlain : r.Plain) :
    (∀ source : String,
      (parse r source).Accounted r
        (r.rounds (.ofSource source)))
    ∧ ∀ tokens : List Token,
        (ofTokens r tokens).Accounted r
          (r.rounds (.ofTokens tokens)) := by
  refine ⟨?_, ?_⟩
  · intro source
    refine accounted_ofCursor hPlain rfl ?_
    intro x hx
    rcases Lexer.kind_of_problems _ x hx with hBefore | h | h
    · simp [Lexer.ofSource] at hBefore
    · rw [h]
      rfl
    · rw [h]
      rfl
  · intro tokens
    refine accounted_ofCursor hPlain rfl ?_
    simp [Cursor.ofTokens, TokenSource.problems]

/- A name that is missing, and a malformed body cut off. -/
theorem blocks_account_for_reports_standard :
    let source := "tech \x7b \x7d tech a \x7b time b"
    Registry.standard.Plain
      ∧ (parse .standard source).diagnostics.map Diagnostic.kind
          = [.missingName, .malformedBody, .unexpectedEof]
      ∧ (parse .standard source).Accounted .standard
          (Registry.standard.rounds (.ofSource source)) :=
  ⟨by decide, by decide +kernel,
    (blocks_account_for_reports .standard (by decide)).1 _⟩

end Script
end BlockScript
