import BlockScript.Proofs.Problems

/-
  This file keeps a log of what is reported on the way of a
  cursor. The source of the tokens may bring problems with
  the text in between, and these do not count for the log.

  Key definitions include:
    * `Interleaves`
    * `Cursor.Logs`
    * `Cursor.Ended`

  Key theorems include:
    * `Cursor.Logs.trans`
    * `Cursor.Logs.interleaves`
    * `Cursor.Logs.added`
    * `Cursor.ended_of_skipToClose`
-/

namespace BlockScript

------------------------------------------------------------
-- Interleavings
------------------------------------------------------------

/-
  A list that two others make together, each of them keeping
  its order.
-/
inductive Interleaves {α : Type} :
    List α → List α → List α → Prop where
  | nil : Interleaves [] [] []
  | left
      {xs ys zs : List α}
      (x : α)
      (hRest : Interleaves xs ys zs) :
      Interleaves (x :: xs) ys (x :: zs)
  | right
      {xs ys zs : List α}
      (y : α)
      (hRest : Interleaves xs ys zs) :
      Interleaves xs (y :: ys) (y :: zs)

namespace Interleaves

variable {α : Type}
variable {xs ys zs : List α}

theorem onlyLeft
    (xs : List α) :
    Interleaves xs [] xs := by
  induction xs with
  | nil => exact .nil
  | cons x xs ih => exact .left x ih

theorem onlyRight
    (ys : List α) :
    Interleaves [] ys ys := by
  induction ys with
  | nil => exact .nil
  | cons y ys ih => exact .right y ih

theorem append
    {xs' ys' zs' : List α}
    (hFirst : Interleaves xs ys zs)
    (hSecond : Interleaves xs' ys' zs') :
    Interleaves (xs ++ xs') (ys ++ ys') (zs ++ zs') := by
  induction hFirst with
  | nil => exact hSecond
  | left x _ ih => exact .left x ih
  | right y _ ih => exact .right y ih

/- A property that tells the two lists apart separates them. -/
theorem filter
    (p : α → Bool)
    (hLeft : ∀ x ∈ xs, p x = false)
    (hRight : ∀ y ∈ ys, p y = true)
    (hInterleaves : Interleaves xs ys zs) :
    zs.filter (!p ·) = xs ∧ zs.filter p = ys := by
  induction hInterleaves with
  | nil => exact ⟨rfl, rfl⟩
  | left x _ ih =>
      rcases ih (fun z hz => hLeft z (.tail x hz)) hRight with
        ⟨hOthers, hThose⟩
      simp [hLeft x (.head _), hOthers, hThose]
  | right y _ ih =>
      rcases ih hLeft (fun z hz => hRight z (.tail y hz)) with
        ⟨hOthers, hThose⟩
      simp [hRight y (.head _), hOthers, hThose]

end Interleaves

namespace Cursor

------------------------------------------------------------
-- What Is Read Only
------------------------------------------------------------

@[simp]
theorem found_eat
    (c : Cursor)
    (kind : TokenKind) :
    (c.eat kind).2.found = c.found := by
  rw [eat_eq]
  split <;> simp

/- Skipping reports nothing by itself. -/
@[simp]
theorem found_skipToClose
    (c : Cursor)
    (bodyDepth : Nat) :
    (c.skipToClose bodyDepth).2.found = c.found := by
  fun_induction skipToClose c bodyDepth with
  | case1 => rfl
  | case2 c _ d hNext => rw [← c.found_next, hNext]
  | case3 c _ t d hNext ih => rw [ih, ← c.found_next, hNext]

/- A token that is taken adds to the reports. -/
theorem diagnostics_prefix_pull
    (c : Cursor) :
    c.diagnostics.toList <+: c.pull.2.diagnostics.toList := by
  simp [pull]

/- Reports are only ever added. -/
theorem Reaches.diagnostics_prefix
    {c d : Cursor}
    (hReaches : c.Reaches d) :
    c.diagnostics.toList <+: d.diagnostics.toList := by
  induction hReaches with
  | refl => exact List.prefix_refl _
  | @peek e _ ih =>
      refine ih.trans ?_
      unfold Cursor.peek
      split
      · exact List.prefix_refl _
      · exact e.diagnostics_prefix_pull
  | @next e _ ih =>
      refine ih.trans ?_
      have hPull := e.diagnostics_prefix_pull
      unfold Cursor.next
      split
      · exact List.prefix_refl _
      · split <;> rename_i hFound <;> rw [hFound] at hPull <;>
          exact hPull
  | report x _ ih =>
      refine ih.trans ?_
      simp [Cursor.report]
  | checkEnd _ ih => exact ih

------------------------------------------------------------
-- Logs
------------------------------------------------------------

/-
  A cursor that has become another by reading and reporting,
  with all that was reported by the way. What the source of
  the tokens brought is not in the log.
-/
inductive Logs (c : Cursor) :
    List Diagnostic → Cursor → Prop where
  | refl : Logs c [] c
  | read
      {ds : List Diagnostic}
      {d e : Cursor}
      (hLogs : Logs c ds d)
      (hReaches : d.Reaches e)
      (hFound : e.found = d.found) :
      Logs c ds e
  | report
      {ds : List Diagnostic}
      {d : Cursor}
      (x : Diagnostic)
      (hLogs : Logs c ds d) :
      Logs c (ds ++ [x]) (d.report x)

namespace Logs

variable {c d e : Cursor}
variable {ds es : List Diagnostic}

theorem trans
    (hFirst : c.Logs ds d)
    (hSecond : d.Logs es e) :
    c.Logs (ds ++ es) e := by
  induction hSecond with
  | refl =>
      rw [List.append_nil]
      exact hFirst
  | read _ hReaches hFound ih => exact ih.read hReaches hFound
  | report x _ ih =>
      rw [← List.append_assoc]
      exact ih.report x

theorem peek
    (hLogs : c.Logs ds d) :
    c.Logs ds d.peek.2 :=
  hLogs.read Reaches.refl.peek d.found_peek

theorem next
    (hLogs : c.Logs ds d) :
    c.Logs ds d.next.2 :=
  hLogs.read Reaches.refl.next d.found_next

theorem checkEnd
    (hLogs : c.Logs ds d) :
    c.Logs ds d.checkEnd :=
  hLogs.read Reaches.refl.checkEnd rfl

theorem skipToClose
    (bodyDepth : Nat)
    (hLogs : c.Logs ds d) :
    c.Logs ds (d.skipToClose bodyDepth).2 :=
  hLogs.read (d.reaches_skipToClose bodyDepth)
    (d.found_skipToClose bodyDepth)

theorem eat
    (kind : TokenKind)
    (hLogs : c.Logs ds d) :
    c.Logs ds (d.eat kind).2 :=
  hLogs.read (d.reaches_eat kind) (d.found_eat kind)

/- Reading by itself reports nothing. -/
theorem of_peek
    {found : Option Token}
    (hPeek : c.peek = (found, d)) :
    c.Logs [] d := by
  have hLook : c.Logs [] c.peek.2 := refl.peek
  rwa [hPeek] at hLook

theorem of_next
    {found : Option Token}
    (hNext : c.next = (found, d)) :
    c.Logs [] d := by
  have hTaken : c.Logs [] c.next.2 := refl.next
  rwa [hNext] at hTaken

theorem of_eat
    {kind : TokenKind}
    {found : Option Token}
    (hEat : c.eat kind = (found, d)) :
    c.Logs [] d := by
  have hTaken : c.Logs [] (c.eat kind).2 := refl.eat kind
  rwa [hEat] at hTaken

theorem of_skipToClose
    {bodyDepth : Nat}
    {closed : Bool}
    (hSkip : c.skipToClose bodyDepth = (closed, d)) :
    c.Logs [] d := by
  have hTaken : c.Logs [] (c.skipToClose bodyDepth).2 :=
    refl.skipToClose bodyDepth
  rwa [hSkip] at hTaken

/-
  What is new among the reports is the log, with problems
  that the source brought in between.
-/
theorem interleaves
    (hLogs : c.Logs ds d) :
    ∃ new brought,
      d.diagnostics.toList = c.diagnostics.toList ++ new
        ∧ Interleaves ds brought new
        ∧ brought ++ d.source.problems = c.source.problems := by
  induction hLogs with
  | refl => exact ⟨[], [], by simp, .nil, rfl⟩
  | @read ds d e _ hReaches hFound ih =>
      rcases ih with ⟨new, brought, hNew, hBetween, hBrought⟩
      rcases hReaches.diagnostics_prefix with ⟨more, hMore⟩
      rw [found, found, ← hMore, List.append_assoc,
        List.append_cancel_left_eq] at hFound
      refine ⟨new ++ more, brought ++ more, ?_, ?_, ?_⟩
      · rw [← hMore, hNew, List.append_assoc]
      · simpa using hBetween.append (.onlyRight more)
      · rw [List.append_assoc, hFound, hBrought]
  | @report ds d x _ ih =>
      rcases ih with ⟨new, brought, hNew, hBetween, hBrought⟩
      refine ⟨new ++ [x], brought, ?_, ?_, hBrought⟩
      · simp [Cursor.report, hNew]
      · simpa using hBetween.append (.onlyLeft [x])

/-
  A property that tells reports from problems with the text
  tells which is which.
-/
theorem added
    (p : Diagnostic → Bool)
    (hSource : ∀ x ∈ c.source.problems, p x = true)
    (hOwn : ∀ x ∈ ds, p x = false)
    (hLogs : c.Logs ds d) :
    ∃ new,
      d.diagnostics.toList = c.diagnostics.toList ++ new
        ∧ new.filter (!p ·) = ds
        ∧ new.filter p ++ d.source.problems
            = c.source.problems := by
  rcases hLogs.interleaves with
    ⟨new, brought, hNew, hBetween, hBrought⟩
  have hThose : ∀ x ∈ brought, p x = true := by
    intro x hx
    apply hSource
    rw [← hBrought]
    exact List.mem_append_left _ hx
  rcases hBetween.filter p hOwn hThose with
    ⟨hReported, hFiltered⟩
  exact ⟨new, hNew, hReported, by rw [hFiltered, hBrought]⟩

end Logs

/- If nothing is reported, the source brings what is new. -/
theorem Logs.brought
    {c d : Cursor}
    (hLogs : c.Logs [] d) :
    ∃ new,
      d.diagnostics.toList = c.diagnostics.toList ++ new
        ∧ new ++ d.source.problems = c.source.problems := by
  obtain ⟨new, hNew, -, hBrought⟩ :=
    hLogs.added (fun _ => true) (by simp) (by simp)
  rw [List.filter_eq_self.mpr (by simp)] at hBrought
  exact ⟨new, hNew, hBrought⟩

------------------------------------------------------------
-- The End of Input
------------------------------------------------------------

/- No token is left, and no problem is still to come. -/
structure Ended (c : Cursor) : Prop where
  tokens : c.tokens = []
  problems : c.source.problems = []

/- Input has ended if no token could be taken. -/
theorem ended_of_next
    {c d : Cursor}
    (hNext : c.next = (none, d)) :
    d.Ended := by
  obtain ⟨-, hTokens, hProblems, -⟩ := found_of_ended hNext
  exact ⟨hTokens, hProblems⟩

/- A skip that fails has met the end of input. -/
theorem ended_of_skipToClose
    {c d : Cursor}
    {bodyDepth : Nat}
    (hSkip : c.skipToClose bodyDepth = (false, d)) :
    d.Ended := by
  fun_induction skipToClose c bodyDepth with
  | case1 => simp at hSkip
  | case2 c _ e hNext =>
      obtain rfl : e = d := congrArg Prod.snd hSkip
      exact ended_of_next hNext
  | case3 c _ t e hNext ih => exact ih hSkip

end Cursor
end BlockScript
