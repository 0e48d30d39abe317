import BlockScript.Proofs.BlockStructure

/-
  This file shows that a text reads the same wherever it
  stands: if it is moved, blocks, fields and reports move
  with it.

  Key definitions include:
    * `Shift`
    * `Script.shift`
    * `Block.relocate`
    * `Cursor.Shifted`

  Key theorems include:
    * `Lexer.next_shift`
    * `Simulation.blocks_relocate`
    * `Simulation.readItems_relocate`
    * `Script.ofCursor_shifted`
-/

namespace BlockScript

------------------------------------------------------------
-- Shifts
------------------------------------------------------------

/- How far a text is moved, in bytes and in lines. -/
structure Shift where
  bytes : Nat
  lines : Nat

def Span.shift
    (k : Shift)
    (s : Span) : Span :=
  { start := s.start + k.bytes, stop := s.stop + k.bytes }

/- The column does not change. -/
def Location.shift
    (k : Shift)
    (l : Location) : Location :=
  { l with line := l.line + k.lines }

def Position.shift
    (k : Shift)
    (p : Position) : Position :=
  { offset := p.offset + k.bytes,
    location := p.location.shift k }

def Token.shift
    (k : Shift)
    (t : Token) : Token :=
  { t with
    span := t.span.shift k,
    location := t.location.shift k }

def Diagnostic.shift
    (k : Shift)
    (d : Diagnostic) : Diagnostic :=
  { d with
    span := d.span.map (Span.shift k),
    location := d.location.map (Location.shift k) }

def Field.shift
    (k : Shift)
    (f : Field) : Field :=
  { f with span := f.span.shift k }

def Outcome.shift
    (k : Shift) : Outcome → Outcome
  | parsed fields => .parsed (fields.map (Field.shift k))
  | failed => .failed

def Block.shift
    (k : Shift)
    (b : Block) : Block :=
  { b with
    span := b.span.shift k,
    outcome := b.outcome.shift k }

/- A range whose two offsets are moved to their images. -/
def Span.relocate
    (f : Nat → Nat)
    (s : Span) : Span :=
  { start := f s.start, stop := f s.stop }

def Field.relocate
    (f : Nat → Nat)
    (field : Field) : Field :=
  { field with span := field.span.relocate f }

def Outcome.relocate
    (f : Nat → Nat) : Outcome → Outcome
  | parsed fields => .parsed (fields.map (Field.relocate f))
  | failed => .failed

def Block.relocate
    (f : Nat → Nat)
    (b : Block) : Block :=
  { b with
    span := b.span.relocate f,
    outcome := b.outcome.relocate f }

/- A shift moves every offset by the same number of bytes. -/
theorem Block.shift_eq_relocate
    (k : Shift)
    (b : Block) :
    b.shift k = b.relocate (· + k.bytes) := by
  rcases b with ⟨keyword, name, span, _ | fields⟩ <;> rfl

/- A script with all its places moved. -/
def Script.shift
    (k : Shift)
    (s : Script) : Script :=
  { blocks := s.blocks.map (Block.shift k),
    diagnostics := s.diagnostics.map (Diagnostic.shift k) }

/- A text that stays where it is. -/
def Shift.none : Shift :=
  { bytes := 0, lines := 0 }

theorem Block.shift_none
    (b : Block) :
    b.shift .none = b := by
  have hFields :
      ∀ fields : List Field,
        fields.map (Field.shift .none) = fields :=
    fun fields => List.map_id fields
  rcases b with ⟨keyword, name, span, _ | fields⟩
  · simp only [shift, Outcome.shift, hFields]
    rfl
  · rfl

@[simp]
theorem Span.length_shift
    (k : Shift)
    (s : Span) :
    (s.shift k).length = s.length := by
  simp only [length, shift]
  omega

------------------------------------------------------------
-- Positions
------------------------------------------------------------

namespace Position

variable {k : Shift}

theorem step_shift
    (p : Position)
    (c : Char) :
    (p.shift k).step c = (p.step c).shift k := by
  simp only [step, shift, Location.step, Location.shift]
  split <;> simp <;> omega

/- Positions move on alike wherever they are. -/
theorem after_shift
    (p : Position)
    (text : List Char) :
    (p.shift k).after text = (p.after text).shift k := by
  induction text generalizing p with
  | nil => rfl
  | cons c text ih => rw [after_cons, after_cons, step_shift, ih]

theorem spanTo_shift
    (p q : Position) :
    (p.shift k).spanTo (q.shift k) = (p.spanTo q).shift k :=
  rfl

end Position

------------------------------------------------------------
-- Lexers
------------------------------------------------------------

namespace Lexer

variable {k : Shift}

/- The lexer of a text that is moved. -/
def shift
    (k : Shift)
    (l : Lexer) : Lexer :=
  { rest := l.rest,
    position := l.position.shift k,
    pending := l.pending.map (Diagnostic.shift k) }

theorem complain_shift
    (l : Lexer)
    (problem : Problem)
    (start stop : Position) :
    (l.shift k).complain problem (start.shift k) (stop.shift k)
      = (l.complain problem start stop).shift k := by
  simp only [complain, shift, Position.spanTo_shift,
    List.map_append]
  rfl

theorem takeLexeme_shift
    (l : Lexer)
    (start : Position)
    (c : Char)
    (rest : List Char) :
    (l.shift k).takeLexeme (start.shift k) c rest
      = ((l.takeLexeme start c rest).1.shift k,
          (l.takeLexeme start c rest).2.shift k) := by
  unfold takeLexeme
  simp only [Position.after_shift, Position.spanTo_shift]
  split
  · rfl
  · rw [← complain_shift]
    rfl

/- The tokens of a text move with it. -/
theorem next_shift
    (l : Lexer) :
    (l.shift k).next
      = (l.next.1.map (Token.shift k), l.next.2.shift k) := by
  unfold next
  simp only [show (l.shift k).rest = l.rest from rfl,
    show (l.shift k).position = l.position.shift k from rfl,
    Position.after_shift]
  split
  · rfl
  · split
    · rw [← complain_shift]
      rfl
    · rw [takeLexeme_shift]
      rfl

theorem drain_shift
    (l : Lexer) :
    (l.shift k).drain
      = (l.drain.1.map (Diagnostic.shift k),
          l.drain.2.shift k) :=
  rfl

end Lexer

------------------------------------------------------------
-- Cursors
------------------------------------------------------------

/-
  Cursors over the same text in two places. On the right,
  something has been reported before.
-/
structure Cursor.Shifted
    (k : Shift)
    (before : List Diagnostic)
    (c c' : Cursor) : Prop where
  source :
    ∃ l, c.source = .script l ∧ c'.source = .script (l.shift k)
  peeked : c'.peeked = c.peeked.map (Token.shift k)
  depth : c'.depth = c.depth
  lastSpan : c'.lastSpan = c.lastSpan.shift k
  lastLocation : c'.lastLocation = c.lastLocation.shift k
  diagnostics :
    c'.diagnostics.toList
      = before ++ c.diagnostics.toList.map (Diagnostic.shift k)

namespace Cursor.Shifted

variable {k : Shift}
variable {before : List Diagnostic}
variable {c c' : Cursor}

/- A report moves with the text. -/
theorem report
    (d : Diagnostic)
    (hShifted : Shifted k before c c') :
    Shifted k before (c.report d) (c'.report (d.shift k)) := by
  obtain ⟨hSource, hPeeked, hDepth, hSpan, hLocation,
    hDiagnostics⟩ := hShifted
  refine ⟨hSource, hPeeked, hDepth, hSpan, hLocation, ?_⟩
  simp [Cursor.report, hDiagnostics]

theorem checkEnd
    (hShifted : Shifted k before c c') :
    Shifted k before c.checkEnd c'.checkEnd :=
  { hShifted with }

theorem reportAtEnd
    (d : Diagnostic)
    (hShifted : Shifted k before c c') :
    Shifted k before (c.reportAtEnd d) (c'.reportAtEnd d) := by
  have hReport := hShifted.checkEnd.report
  unfold Cursor.reportAtEnd
  simp only [hShifted.lastSpan, hShifted.lastLocation,
    Span.length_shift]
  exact hReport _

theorem pull
    (hShifted : Shifted k before c c') :
    InStep (fun t t' => t' = t.shift k) (Shifted k before)
      (fun _ _ => False) c.pull c'.pull := by
  obtain ⟨⟨l, hLeft, hRight⟩, hPeeked, hDepth, hSpan, hLocation,
    hDiagnostics⟩ := hShifted
  have hNext := l.next_shift (k := k)
  rcases hFound : l.next with ⟨found, m⟩
  rw [hFound] at hNext
  have hAfter :
      Shifted k before
        { c with
          source := .script m.drain.2,
          diagnostics := c.diagnostics ++ m.drain.1 }
        { c' with
          source := .script (m.shift k).drain.2,
          diagnostics :=
            c'.diagnostics ++ (m.shift k).drain.1 } := by
    refine ⟨⟨m.drain.2, rfl, rfl⟩, hPeeked, hDepth, hSpan,
      hLocation, ?_⟩
    simp [hDiagnostics, Lexer.drain_shift]
  simp only [Cursor.pull, TokenSource.next, TokenSource.drain,
    hLeft, hRight, hFound, hNext]
  cases found with
  | none => exact .neither hAfter
  | some t => exact .both rfl hAfter

theorem keep
    {t t' : Token}
    (hShifted : Shifted k before c c')
    (hToken : t' = t.shift k) :
    Shifted k before { c with peeked := some t }
      { c' with peeked := some t' } := by
  subst hToken
  exact { hShifted with peeked := rfl }

theorem take
    {t t' : Token}
    (hShifted : Shifted k before c c')
    (hToken : t' = t.shift k) :
    Shifted k before
      (Cursor.consume { c with peeked := none } t)
      (Cursor.consume { c' with peeked := none } t') := by
  subst hToken
  obtain ⟨hSource, _, hDepth, _, _, hDiagnostics⟩ := hShifted
  refine ⟨hSource, rfl, ?_, rfl, rfl, hDiagnostics⟩
  simp only [Cursor.consume, hDepth]
  rfl

end Cursor.Shifted

/- Runs over the same text in two places. -/
def Simulation.shifted
    (k : Shift)
    (before : List Diagnostic) : Simulation where
  token t t' := t' = t.shift k
  offset n n' := n' = n + k.bytes
  toEnding := .together
  cursor := Cursor.Shifted k before
  kind_eq h := by rw [h]; rfl
  text_eq h := by rw [h]; rfl
  start h := by rw [h]; rfl
  depth_eq h := h.depth
  stop h := by rw [h.lastSpan]; rfl
  peek h := .peek h (Cursor.peeked_map h.peeked) h.pull .keep
  next h := .next h (Cursor.peeked_map h.peeked) h.pull .take
  reportAt d _ h hToken := by
    subst hToken
    exact h.report _
  reportAtEnd d _ h := h.reportAtEnd d

------------------------------------------------------------
-- Blocks
------------------------------------------------------------

namespace Simulation

variable {S : Simulation}
variable {k : Shift}
variable {before : List Diagnostic}

/-
  Where every offset on the left has one image on the right,
  what two runs read differs by moving offsets to their
  images.
-/
theorem fields_relocate
    {f : Nat → Nat}
    {fields fields' : List Field}
    (hOffset : ∀ n n', S.offset n n' → n' = f n)
    (hFields : List.Forall₂ S.SameField fields fields') :
    fields' = fields.map (Field.relocate f) := by
  induction hFields with
  | nil => rfl
  | @cons x x' fields fields' hField _ ih =>
      obtain ⟨hKey, hValue, hStart, hStop⟩ := hField
      replace hStart := hOffset _ _ hStart
      replace hStop := hOffset _ _ hStop
      rcases x' with ⟨key', value', ⟨start', stop'⟩⟩
      simp only at hKey hValue hStart hStop
      rw [List.map_cons, ih, hKey, hValue, hStart, hStop]
      rfl

theorem block_relocate
    {f : Nat → Nat}
    {b b' : Block}
    (hOffset : ∀ n n', S.offset n n' → n' = f n)
    (hBlock : S.SameBlock S.SameOutcome b b') :
    b' = b.relocate f := by
  obtain ⟨hKeyword, hName, hStart, hStop, hOutcome⟩ := hBlock
  replace hStart := hOffset _ _ hStart
  replace hStop := hOffset _ _ hStop
  rcases b with ⟨keyword, name, span, o⟩
  rcases b' with ⟨keyword', name', ⟨start', stop'⟩, o'⟩
  have hSame : o' = o.relocate f := by
    cases hOutcome with
    | parsed hFields =>
        rw [fields_relocate hOffset hFields]
        rfl
    | failed => rfl
  simp only at hKeyword hName hStart hStop
  rw [hKeyword, hName, hStart, hStop, hSame]
  rfl

theorem blocks_relocate
    {f : Nat → Nat}
    {bs bs' : List Block}
    (hOffset : ∀ n n', S.offset n n' → n' = f n)
    (hBlocks :
      List.Forall₂ (S.SameBlock S.SameOutcome) bs bs') :
    bs' = bs.map (Block.relocate f) := by
  induction hBlocks with
  | nil => rfl
  | cons hBlock _ ih =>
      rw [List.map_cons, block_relocate hOffset hBlock, ih]

/-
  Where offsets are shifted, the blocks that two runs read
  are shifted as a whole.
-/
theorem blocks_shift
    {bs bs' : List Block}
    (hOffset : ∀ n n', S.offset n n' → n' = n + k.bytes)
    (hBlocks :
      List.Forall₂ (S.SameBlock S.SameOutcome) bs bs') :
    bs' = bs.map (Block.shift k) := by
  rw [funext (Block.shift_eq_relocate k)]
  exact blocks_relocate hOffset hBlocks

/- Plain registries read alike in runs of any kind. -/
theorem sameKind_refl
    {r : Registry}
    {keyword : String}
    (hPlain : r.Plain) :
    Option.Rel (S.SameKind S.SameOutcome)
      (r.lookup keyword) (r.lookup keyword) := by
  rcases hLookup : r.lookup keyword with _ | kind
  · exact .none
  · have hMember := KindTable.mem_kinds_of_get? hLookup
    have hBody := hPlain kind hMember
    refine .some ⟨rfl, ?_⟩
    cases hKind : kind.body with
    | unstructured => exact bodies_unstructured
    | table table => exact bodies_table table
    | custom g => simp [hKind, Body.isCustom] at hBody

theorem registries_refl
    {r : Registry}
    (hEnded : ∀ c c' : Cursor, ¬ S.ended c c')
    (hPlain : r.Plain) :
    S.Registries S.SameOutcome r r where
  failed := .failed
  lookup _ _ := sameKind_refl hPlain
  endsAtWords c c' h := absurd h (hEnded c c')
  keyword h := absurd h (hEnded _ _)

/-
  Runs that end together read the same blocks, with offsets
  moved to their images, and end in step.
-/
theorem readItems_relocate
    {f : Nat → Nat}
    {r : Registry}
    {c c' : Cursor}
    (hTogether : S.toEnding = .together)
    (hOffset : ∀ n n', S.offset n n' → n' = f n)
    (hPlain : r.Plain)
    (hCursor : S.cursor c c') :
    (r.readItems [] c').1
        = (r.readItems [] c).1.map (Block.relocate f)
      ∧ S.cursor (r.readItems [] c).2
          (r.readItems [] c').2 := by
  have hEnded : ∀ c c' : Cursor, ¬ S.ended c c' := by
    rw [hTogether]
    exact fun _ _ h => h
  have hLost : ∀ c : Cursor, ¬ S.lost c := by
    rw [hTogether]
    exact fun _ h => h
  rcases readItems_total (registries_refl hEnded hPlain) hEnded
    hLost .nil hCursor with ⟨hBlocks, hAfter⟩
  exact ⟨blocks_relocate hOffset hBlocks, hAfter⟩

end Simulation

------------------------------------------------------------
-- Scripts
------------------------------------------------------------

namespace Cursor

/- The same cursor after another token. -/
def withLast
    (c : Cursor)
    (span : Span)
    (location : Location) : Cursor :=
  { c with lastSpan := span, lastLocation := location }

/- The next token does not depend on the one before. -/
theorem next_withLast
    (c : Cursor)
    (span : Span)
    (location : Location) :
    (c.withLast span location).next
      = match c.next with
        | (some t, d) => (some t, d)
        | (none, d) => (none, d.withLast span location) := by
  rcases hPeeked : c.peeked with _ | s
  · rcases hPull : c.pull with ⟨found, d⟩
    have hPull' :
        (c.withLast span location).pull
          = (found, d.withLast span location) := by
      simp only [pull, Prod.mk.injEq] at hPull
      simp only [pull, withLast, ← hPull.1, ← hPull.2]
    rw [next_of_pull hPeeked hPull,
      next_of_pull (c := c.withLast span location) hPeeked hPull']
    cases found <;> rfl
  · simp only [next, withLast, hPeeked]
    rfl

end Cursor

namespace Registry

/- Blocks read before stand in front. -/
theorem readItems_blocks
    (r : Registry)
    (blocks before : List Block)
    (c : Cursor) :
    r.readItems (blocks ++ before) c
      = (before.reverse ++ (r.readItems blocks c).1,
          (r.readItems blocks c).2) := by
  fun_induction readItems r blocks c with
  | case1 blocks c d hNext =>
      rw [Registry.readItems_of_none r _ hNext]
      simp
  | case2 blocks c t d hNext item ih =>
      rw [Registry.readItems_of_some r _ hNext,
        ← List.append_assoc]
      exact ih

end Registry

namespace Script

/-
  What a script says does not depend on the token before it.
-/
theorem ofCursor_withLast
    (r : Registry)
    (c : Cursor)
    (span : Span)
    (location : Location) :
    ofCursor r (c.withLast span location) = ofCursor r c := by
  have hNext := c.next_withLast span location
  rcases hFound : c.next with ⟨_ | t, d⟩
  · rw [hFound] at hNext
    simp only [ofCursor,
      Registry.readItems_of_none r [] hNext,
      Registry.readItems_of_none r [] hFound]
    rfl
  · rw [hFound] at hNext
    simp only [ofCursor,
      Registry.readItems_of_some r [] hNext,
      Registry.readItems_of_some r [] hFound]

/- A script that is moved is the same, in another place. -/
theorem ofCursor_shifted
    {r : Registry}
    {k : Shift}
    {before : List Diagnostic}
    {c c' : Cursor}
    (hPlain : r.Plain)
    (hShifted : c.Shifted k before c') :
    ofCursor r c'
      = { blocks := ((ofCursor r c).shift k).blocks,
          diagnostics :=
            before ++ ((ofCursor r c).shift k).diagnostics } := by
  rcases Simulation.readItems_relocate
    (S := .shifted k before) rfl (fun _ _ h => h) hPlain
    hShifted with ⟨hSame, hAfter⟩
  rw [← funext (Block.shift_eq_relocate k)] at hSame
  have hFinish :
      (r.readItems [] c').2.finish
        = before
            ++ (r.readItems [] c).2.finish.map
                (Diagnostic.shift k) := by
    obtain ⟨⟨l, hLeft, hRight⟩, _, _, _, _, hDiagnostics⟩ :=
      hAfter
    simp [Cursor.finish, hLeft, hRight, hDiagnostics,
      TokenSource.drain, Lexer.drain_shift]
  simp only [ofCursor, shift, hSame, hFinish]

end Script
end BlockScript
