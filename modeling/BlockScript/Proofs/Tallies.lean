import BlockScript.Proofs.Origins
import BlockScript.Proofs.Realignment
import BlockScript.Proofs.Rounds

/-
  This file says what a round can report, by the block that
  it reads. Bodies are tables or have no structure. The end
  of input is reported last, and only if it has come.

  Key definitions include:
    * `Cursor.CutOff`
    * `Cursor.Tells`
    * `BodyTally`
    * `Tally`

  Key theorems include:
    * `Header.tells_readBlock`
    * `Registry.tells_readKind`
    * `Registry.tells_readItem`
-/

namespace BlockScript

------------------------------------------------------------
-- Bodies
------------------------------------------------------------

namespace Body

variable {body : Body}
variable {h : Header}
variable {c : Cursor}

/- Bodies report nothing by themselves. -/
theorem found_read
    (hPlain : body.isCustom = false)
    (h : Header)
    (c : Cursor) :
    (body.read h c).2.found = c.found := by
  cases body with
  | unstructured =>
      have hSkip := c.found_skipToClose c.depth
      simp only [read]
      split <;> rename_i hFound <;> rwa [hFound] at hSkip
  | table t =>
      have hJudges := t.recognizes_readFields.judges c
      simp only [read]
      generalize t.readFields [] c = x at hJudges ⊢
      cases hJudges with
      | member _ hMoves => exact hMoves.found
      | cut _ _ hMoves => exact hMoves.found
      | wrong _ _ _ hMoves =>
          rcases hMoves with hMoves | hMoves <;>
            exact hMoves.found
  | custom g => simp [isCustom] at hPlain

/- If a body says that input has ended, it has. -/
theorem ended_of_read
    {d : Cursor}
    (hPlain : body.isCustom = false)
    (hPositive : 0 < c.depth)
    (hRead : body.read h c = (.error .unexpectedEof, d)) :
    d.Ended := by
  cases body with
  | unstructured =>
      simp only [read] at hRead
      split at hRead
      · simp at hRead
      · rename_i e hSkip
        obtain rfl : e = d := congrArg Prod.snd hRead
        exact Cursor.ended_of_skipToClose hSkip
  | table t =>
      have hStays := t.stays_readFields [] hPositive
      simp only [read] at hRead
      rw [hRead] at hStays
      cases hStays with
      | eof hSkip => exact Cursor.ended_of_skipToClose hSkip
  | custom g => simp [isCustom] at hPlain

end Body

------------------------------------------------------------
-- Kinds of Reports
------------------------------------------------------------

namespace Cursor

/- Input has ended, and this is the last thing reported. -/
structure CutOff (c : Cursor) : Prop where
  ended : c.Ended
  last :
    ∃ d ∈ c.diagnostics.toList.getLast?, d.kind = .unexpectedEof

theorem cutOff_reportAtEnd
    {c : Cursor}
    {problem : Problem}
    (hKind : problem.kind = .unexpectedEof)
    (hEnded : c.Ended) :
    (c.reportAtEnd (.ofProblem problem)).CutOff where
  ended := ⟨hEnded.tokens, hEnded.problems⟩
  last := ⟨_, by simp [reportAtEnd, report]; rfl, hKind⟩

/-
  A cursor that has become another by reading and by reports
  of these kinds. The end of input is reported at the end.
-/
structure Tells
    (c : Cursor)
    (kinds : List DiagnosticKind)
    (d : Cursor) : Prop where
  logs : ∃ ds, c.Logs ds d ∧ ds.map Diagnostic.kind = kinds
  cut : .unexpectedEof ∈ kinds → d.CutOff

namespace Tells

variable {c d e : Cursor}
variable {kinds more : List DiagnosticKind}

theorem of_logs
    (hLogs : c.Logs [] d) :
    c.Tells [] d where
  logs := ⟨[], hLogs, rfl⟩
  cut h := absurd h (by simp)

/- Reports that are not about the end may come before. -/
theorem trans
    (hNone : .unexpectedEof ∉ kinds)
    (hFirst : c.Tells kinds d)
    (hSecond : d.Tells more e) :
    c.Tells (kinds ++ more) e where
  logs := by
    obtain ⟨ds, hLogs, rfl⟩ := hFirst.logs
    obtain ⟨es, hMore, rfl⟩ := hSecond.logs
    exact ⟨ds ++ es, hLogs.trans hMore, by simp⟩
  cut h := by
    rcases List.mem_append.mp h with h | h
    · exact absurd h hNone
    · exact hSecond.cut h

/- What is read before is not reported. -/
theorem after
    (hLogs : c.Logs [] d)
    (hTells : d.Tells kinds e) :
    c.Tells kinds e :=
  (of_logs hLogs).trans (by simp) hTells

theorem report
    {x : Diagnostic}
    {kind : DiagnosticKind}
    (hKind : x.kind = kind)
    (hOther : kind ≠ .unexpectedEof)
    (hLogs : c.Logs [] d) :
    c.Tells [kind] (d.report x) where
  logs := ⟨[x], hLogs.report x, congrArg ([·]) hKind⟩
  cut h := absurd (List.mem_singleton.mp h).symm hOther

/- The end of input is reported once it has come. -/
theorem reportEnd
    {problem : Problem}
    (hKind : problem.kind = .unexpectedEof)
    (hEnded : d.Ended)
    (hLogs : c.Logs [] d) :
    c.Tells [.unexpectedEof]
      (d.reportAtEnd (.ofProblem problem)) where
  logs := ⟨[_], hLogs.checkEnd.report _, congrArg ([·]) hKind⟩
  cut _ := cutOff_reportAtEnd hKind hEnded

end Tells

/- Passing over a group reports only that it is open. -/
theorem tells_passGroup
    (c : Cursor)
    (problem : Problem)
    (hKind : problem.kind = .unexpectedEof) :
    ∃ kinds,
      (kinds = [] ∨ kinds = [.unexpectedEof])
        ∧ c.Tells kinds (c.passGroup problem) := by
  unfold passGroup skipGroup
  rcases hEat : c.eat .lBrace with ⟨_ | t, d⟩
  · exact ⟨[], .inl rfl, .of_logs (.of_eat hEat)⟩
  · simp only
    rcases hSkip : d.skipToClose d.depth with ⟨_ | _, e⟩ <;>
      have hLogs : c.Logs [] e :=
        (Logs.of_eat hEat).trans (.of_skipToClose hSkip)
    · exact ⟨_, .inr rfl,
        .reportEnd hKind (ended_of_skipToClose hSkip) hLogs⟩
    · exact ⟨[], .inl rfl, .of_logs hLogs⟩

theorem tells_passStray
    (c : Cursor) :
    ∃ kinds,
      (kinds = [] ∨ kinds = [.unexpectedEof])
        ∧ c.Tells kinds c.passStray := by
  fun_induction passStray c with
  | case1 c d hPeek =>
      exact ⟨[], .inl rfl, .of_logs (.of_peek hPeek)⟩
  | case2 c t d hPeek _ =>
      exact ⟨[], .inl rfl, .of_logs (.of_peek hPeek)⟩
  | case3 c t d hPeek _ =>
      obtain ⟨kinds, hKinds, hTells⟩ :=
        d.tells_passGroup .openGroup rfl
      exact ⟨kinds, hKinds, .after (.of_peek hPeek) hTells⟩
  | case4 c t d hPeek _ _ ih =>
      obtain ⟨kinds, hKinds, hTells⟩ := ih
      have hTaken := (Logs.of_peek hPeek).next
      exact ⟨kinds, hKinds, .after hTaken hTells⟩

end Cursor

------------------------------------------------------------
-- Blocks
------------------------------------------------------------

/-
  What is reported about the body of a block, by what became
  of it. Only a body that is malformed may be reported twice.
-/
inductive BodyTally : Outcome → List DiagnosticKind → Prop where
  | parsed
      (fields : List Field) :
      BodyTally (.parsed fields) []
  | missing : BodyTally .failed [.missingBody]
  | malformed : BodyTally .failed [.malformedBody]
  | cut : BodyTally .failed [.unexpectedEof]
  | malformedAndCut :
      BodyTally .failed [.malformedBody, .unexpectedEof]

/-
  What is left of a block is skipped. If that fails, the end
  of input is reported, and the block has failed.
-/
theorem Header.tells_close
    {c d : Cursor}
    {o : Outcome}
    {kinds : List DiagnosticKind}
    (h : Header)
    (bodyDepth : Nat)
    (hNone : .unexpectedEof ∉ kinds)
    (hTally : BodyTally o kinds)
    (hCut : BodyTally .failed (kinds ++ [.unexpectedEof]))
    (hTells : c.Tells kinds d) :
    let x :=
      match d.skipToClose bodyDepth with
      | (true, d) => (h.close o d, d)
      | (false, d) => h.closeAtEnd d
    ∃ all, BodyTally x.1.outcome all ∧ c.Tells all x.2 := by
  rcases hSkip : d.skipToClose bodyDepth with ⟨_ | _, e⟩
  · have hEnded := Cursor.ended_of_skipToClose hSkip
    exact ⟨_, hCut,
      hTells.trans hNone
        (.reportEnd rfl hEnded (.of_skipToClose hSkip))⟩
  · have hAll :=
      hTells.trans hNone (.of_logs (.of_skipToClose hSkip))
    rw [List.append_nil] at hAll
    exact ⟨kinds, hTally, hAll⟩

/- What is reported about a block follows what became of it. -/
theorem Header.tells_readBlock
    {body : Body}
    {c : Cursor}
    (h : Header)
    (hPlain : body.isCustom = false)
    (hPositive : 0 < c.depth) :
    ∃ kinds,
      BodyTally (h.readBlock body c).1.outcome kinds
        ∧ c.Tells kinds (h.readBlock body c).2 := by
  have hBody : c.Logs [] (body.read h c).2 :=
    Cursor.Logs.refl.read (body.reaches_read h c)
      (body.found_read hPlain h c)
  rw [h.readBlock_of_keepsHeader c
    (Body.keepsHeader_of_plain hPlain)]
  rcases hRead : body.read h c with
    ⟨(⟨cause, blamed⟩ | _) | fields, d⟩ <;> rw [hRead] at hBody
  · have hReport :
        c.Tells [.malformedBody]
          (h.reportMalformed cause blamed d) := by
      rw [reportMalformed_eq]
      exact .report (h.kind_malformation cause blamed)
        (by decide) hBody
    exact h.tells_close c.depth (by simp) .malformed
      .malformedAndCut hReport
  · have hEnded := Body.ended_of_read hPlain hPositive hRead
    exact ⟨_, .cut, .reportEnd rfl hEnded hBody⟩
  · exact h.tells_close c.depth (by simp) (.parsed fields) .cut
      (.of_logs hBody)

/- The nesting after an opening brace is not zero. -/
theorem Cursor.depth_of_eat
    {c d : Cursor}
    {t : Token}
    (hEat : c.eat .lBrace = (some t, d)) :
    0 < d.depth := by
  rw [eat_eq] at hEat
  split at hEat
  · rename_i hKind
    have hNext : c.peek.2.next.1 = some t := by rw [hEat]
    obtain ⟨e, hTaken, -⟩ := next_consume hNext
    obtain rfl : d = e.consume t := by
      rw [← hTaken, hEat]
    rw [next_peek, next_fst, ← peek_fst] at hNext
    rw [hNext, Option.map_some, Option.some.injEq] at hKind
    simp [consume, depthAfter, hKind]
  · simp at hEat

namespace Registry

/- A name is read, or reported as missing. -/
theorem tells_readName
    (keyword : String)
    (c : Cursor) :
    c.Tells
      (if (readName keyword c).1.isNone then
        [.missingName]
      else
        [])
      (readName keyword c).2 := by
  unfold readName
  rcases hPeek : c.peek with ⟨_ | t, d⟩
  · have hLook := Cursor.Logs.of_peek hPeek
    exact .report rfl (by decide) hLook.checkEnd
  · have hLook := Cursor.Logs.of_peek hPeek
    simp only
    split
    · exact .of_logs hLook.next
    · split
      · exact .report rfl (by decide) hLook
      · exact .report rfl (by decide) hLook.next

theorem tells_readNamed
    (kind : BlockKind)
    (keyword : String)
    (c : Cursor) :
    c.Tells
      (if (readNamed kind keyword c).1.isNone && kind.named then
        [.missingName]
      else
        [])
      (readNamed kind keyword c).2 := by
  unfold readNamed
  rcases kind.named with _ | _
  · exact .of_logs .refl
  · rw [if_pos rfl, Bool.and_true]
    exact tells_readName keyword c

/- A body is read, or reported as missing. -/
theorem tells_readBraced
    {kind : BlockKind}
    (keyword : Token)
    (name : Option String)
    (c : Cursor)
    (hPlain : kind.body.isCustom = false) :
    ∃ kinds,
      BodyTally (readBraced kind keyword name c).1.outcome kinds
        ∧ c.Tells kinds (readBraced kind keyword name c).2 := by
  unfold readBraced
  rcases hFound : c.eat .lBrace with ⟨_ | t, d⟩ <;>
    have hEat := Cursor.Logs.of_eat hFound
  · have hLook := hEat.peek
    simp only at hLook ⊢
    refine ⟨_, .missing, ?_⟩
    rcases hPeek : d.peek with ⟨_ | t, e⟩ <;>
      rw [hPeek] at hLook
    · exact .report rfl (by decide) hLook.checkEnd
    · exact .report rfl (by decide) hLook
  · obtain ⟨kinds, hTally, hTells⟩ :=
      (headerAt keyword name d).tells_readBlock hPlain
        (Cursor.depth_of_eat hFound)
    exact ⟨kinds, hTally, .after hEat hTells⟩

/-
  What is reported in one round, by the block that it reads:
  about its name and then about its body, or about what is
  passed over.
-/
inductive Tally (r : Registry) :
    Option Block → List DiagnosticKind → Prop where
  | block
      {b : Block}
      {kinds : List DiagnosticKind}
      (hBody : BodyTally b.outcome kinds) :
      Tally r (some b)
        ((if r.lacksName b then [.missingName] else []) ++ kinds)
  | passed
      {kind : DiagnosticKind}
      {kinds : List DiagnosticKind}
      (hKind : kind = .unknownKeyword ∨ kind = .unexpectedToken)
      (hKinds : kinds = [] ∨ kinds = [.unexpectedEof]) :
      Tally r none (kind :: kinds)

theorem tells_readKind
    {r : Registry}
    {kind : BlockKind}
    {t : Token}
    (c : Cursor)
    (hPlain : r.Plain)
    (hLookup : r.lookup t.text = some kind) :
    ∃ kinds,
      r.Tally (some (readKind kind t c).1) kinds
        ∧ c.Tells kinds (readKind kind t c).2 := by
  have hBody : kind.body.isCustom = false :=
    hPlain kind (KindTable.mem_kinds_of_get? hLookup)
  obtain ⟨hKeyword, hName, -⟩ :=
    yields_readKind c hPlain.keepsHeaders hLookup
  have hLacks :
      r.lacksName (readKind kind t c).1
        = ((readNamed kind t.text c).1.isNone
            && kind.named) := by
    rw [lacksName, hKeyword, hLookup, hName]
    rfl
  obtain ⟨kinds, hTally, hTells⟩ :=
    tells_readBraced t (readNamed kind t.text c).1
      (readNamed kind t.text c).2 hBody
  refine ⟨_, .block hTally, ?_⟩
  rw [hLacks]
  refine (tells_readNamed kind t.text c).trans ?_ hTells
  split <;> simp

theorem tells_passUnknown
    (r : Registry)
    (c : Cursor) :
    ∃ kinds,
      (kinds = [] ∨ kinds = [.unexpectedEof])
        ∧ c.Tells kinds (r.passUnknown c) := by
  unfold passUnknown
  rcases hPeek : c.peek with ⟨_ | t, d⟩
  · exact ⟨[], .inl rfl, .of_logs (.of_peek hPeek)⟩
  · have hLook := Cursor.Logs.of_peek hPeek
    have hName :
        c.Logs []
          (if r.isUnknownName t then d.next.2 else d) := by
      split
      · exact hLook.next
      · exact hLook
    obtain ⟨kinds, hKinds, hTells⟩ :=
      Cursor.tells_passGroup
        (if r.isUnknownName t then d.next.2 else d)
        .openUnknownBlock rfl
    exact ⟨kinds, hKinds, .after hName hTells⟩

theorem tells_passStrayFrom
    (t : Token)
    (c : Cursor) :
    ∃ kinds,
      (kinds = [] ∨ kinds = [.unexpectedEof])
        ∧ c.Tells (.unexpectedToken :: kinds)
            (passStrayFrom t c) := by
  have hReport :
      c.Tells [.unexpectedToken]
        (c.reportAt (.ofProblem (.strayToken t)) t) :=
    .report rfl (by decide) .refl
  unfold passStrayFrom
  simp only
  generalize
    c.reportAt (.ofProblem (.strayToken t)) t = d at *
  split
  · rcases hSkip : d.skipToClose d.depth with ⟨_ | _, e⟩ <;>
      have hLogs := Cursor.Logs.of_skipToClose hSkip
    · have hEnded := Cursor.ended_of_skipToClose hSkip
      exact ⟨_, .inr rfl,
        hReport.trans (by simp) (.reportEnd rfl hEnded hLogs)⟩
    · exact ⟨[], .inl rfl,
        hReport.trans (by simp) (.of_logs hLogs)⟩
  · obtain ⟨kinds, hKinds, hTells⟩ := d.tells_passStray
    exact ⟨kinds, hKinds, hReport.trans (by simp) hTells⟩

/- What is reported in a round follows what it reads. -/
theorem tells_readItem
    {r : Registry}
    (t : Token)
    (c : Cursor)
    (hPlain : r.Plain) :
    ∃ kinds,
      r.Tally (r.readItem t c).1 kinds
        ∧ c.Tells kinds (r.readItem t c).2 := by
  unfold readItem
  split
  · rcases hLookup : r.lookup t.text with _ | kind
    · have hReport :
          c.Tells [.unknownKeyword]
            (c.reportAt (.ofProblem (.unknownKeyword t.text))
              t) :=
        .report rfl (by decide) .refl
      obtain ⟨kinds, hKinds, hTells⟩ :=
        tells_passUnknown r
          (c.reportAt (.ofProblem (.unknownKeyword t.text)) t)
      exact ⟨_, .passed (.inl rfl) hKinds,
        hReport.trans (by simp) hTells⟩
    · exact tells_readKind c hPlain hLookup
  · obtain ⟨kinds, hKinds, hTells⟩ := tells_passStrayFrom t c
    exact ⟨_, .passed (.inr rfl) hKinds, hTells⟩

------------------------------------------------------------
-- Counting
------------------------------------------------------------

namespace Tally

variable {r : Registry}
variable {block : Option Block}
variable {kinds : List DiagnosticKind}

/- Problems with the text are reported by others. -/
theorem isLexical
    (hTally : r.Tally block kinds) :
    ∀ kind ∈ kinds, kind.isLexical = false := by
  cases hTally with
  | @block b _ hBody =>
      rcases b with ⟨keyword, name, span, outcome⟩
      cases hBody <;> split <;> simp [DiagnosticKind.isLexical]
  | passed hKind hKinds =>
      rcases hKind with rfl | rfl <;>
        rcases hKinds with rfl | rfl <;>
        simp [DiagnosticKind.isLexical]

/- A name is reported if it is missing. -/
theorem count_missingName
    (hTally : r.Tally block kinds) :
    kinds.count .missingName
      = (block.toList.filter r.lacksName).length := by
  cases hTally with
  | @block b kinds hBody =>
      have hOther :
          ∀ o,
            BodyTally o kinds →
              kinds.count .missingName = 0 := by
        intro o hKinds
        cases hKinds <;> rfl
      rw [List.count_append, hOther _ hBody]
      rcases hLacks : r.lacksName b with _ | _ <;>
        simp [hLacks]
  | passed hKind hKinds =>
      rcases hKind with rfl | rfl <;>
        rcases hKinds with rfl | rfl <;> rfl

/-
  A block has failed for one reason: there is no body, it is
  malformed, or else input ended inside it.
-/
theorem count_failed
    (hTally : r.Tally block kinds) :
    (block.toList.filter (·.isFailed)).length
      = kinds.count .missingBody + kinds.count .malformedBody
          + if block.isSome ∧ .unexpectedEof ∈ kinds
                ∧ .malformedBody ∉ kinds then 1 else 0 := by
  cases hTally with
  | @block b _ hBody =>
      rcases b with ⟨keyword, name, span, outcome⟩
      cases hBody <;> split <;> simp [Block.isFailed]
  | passed hKind hKinds =>
      rcases hKind with rfl | rfl <;>
        rcases hKinds with rfl | rfl <;> rfl

/- The end of input is reported last. -/
theorem ne_unexpectedEof
    (hTally : r.Tally block kinds) :
    .unexpectedEof ∉ kinds.dropLast := by
  cases hTally with
  | @block b _ hBody =>
      rcases b with ⟨keyword, name, span, outcome⟩
      cases hBody <;> split <;> simp
  | passed hKind hKinds =>
      rcases hKind with rfl | rfl <;>
        rcases hKinds with rfl | rfl <;> simp

end Tally
end Registry
end BlockScript
