import BlockScript.Proofs.ItemBlocks
import BlockScript.Proofs.Prelexed
import BlockScript.Proofs.Slices

/-
  This file shows that every block can be read again from the
  text in its span. The slice has the tokens of the block, in
  another place, and these say all there is to say about it.

  Key definitions include:
    * `Cursor.Relisted`
    * `Simulation.relisted`

  Key theorems include:
    * `Script.blocks_relisted`
    * `Script.parse_slice`
-/

namespace BlockScript

------------------------------------------------------------
-- Moved Tokens
------------------------------------------------------------

/-
  Cursors over lists of the same tokens, which on the right
  stand further on. Nothing is said about reports.
-/
structure Cursor.Relisted
    (bytes : Nat)
    (c c' : Cursor) : Prop where
  source :
    ∃ ts ts',
      c.source = .listed ts
        ∧ c'.source = .listed ts'
        ∧ List.Forall₂ (Token.Moved bytes) ts ts'
  peeked :
    Option.Rel (Token.Moved bytes) c.peeked c'.peeked
  depth : c'.depth = c.depth
  stop : c'.lastSpan.stop = c.lastSpan.stop + bytes

namespace Cursor.Relisted

variable {bytes : Nat}
variable {c c' : Cursor}

theorem pull
    (hRelisted : Relisted bytes c c') :
    InStep (Token.Moved bytes) (Relisted bytes)
      (fun _ _ => False) c.pull c'.pull := by
  obtain ⟨⟨ts, ts', hLeft, hRight, hTokens⟩, hPeeked, hDepth,
    hStop⟩ := hRelisted
  simp only [Cursor.pull, hLeft, hRight]
  cases hTokens with
  | nil =>
      exact .neither
        ⟨⟨[], [], rfl, rfl, .nil⟩, hPeeked, hDepth, hStop⟩
  | cons hToken hRest =>
      exact .both hToken
        ⟨⟨_, _, rfl, rfl, hRest⟩, hPeeked, hDepth, hStop⟩

theorem keep
    {t t' : Token}
    (hRelisted : Relisted bytes c c')
    (hToken : t.Moved bytes t') :
    Relisted bytes { c with peeked := some t }
      { c' with peeked := some t' } :=
  { hRelisted with peeked := .some hToken }

theorem take
    {t t' : Token}
    (hRelisted : Relisted bytes c c')
    (hToken : t.Moved bytes t') :
    Relisted bytes
      (Cursor.consume { c with peeked := none } t)
      (Cursor.consume { c' with peeked := none } t') where
  source := hRelisted.source
  peeked := .none
  depth := by
    simp only [Cursor.consume, hRelisted.depth, hToken.kind_eq]
  stop := hToken.stop

end Cursor.Relisted

/- Runs over the same tokens in two places. -/
def Simulation.relisted (bytes : Nat) : Simulation where
  token := Token.Moved bytes
  offset n n' := n' = n + bytes
  toEnding := .together
  cursor := Cursor.Relisted bytes
  kind_eq h := h.kind_eq
  text_eq h := h.text_eq
  start h := h.start
  depth_eq h := h.depth
  stop h := h.stop
  peek h := .peek h h.peeked h.pull .keep
  next h := .next h h.peeked h.pull .take
  reportAt _ _ h _ := ⟨h.source, h.peeked, h.depth, h.stop⟩
  reportAtEnd _ _ h := ⟨h.source, h.peeked, h.depth, h.stop⟩

namespace Script

/- Tokens that are moved give blocks that are moved. -/
theorem blocks_relisted
    {r : Registry}
    {bytes : Nat}
    {ts ts' : List Token}
    (hPlain : r.Plain)
    (hMoved : List.Forall₂ (Token.Moved bytes) ts ts') :
    (ofTokens r ts').blocks
      = (ofTokens r ts).blocks.map
          (Block.shift { bytes, lines := 0 }) := by
  -- Before the first token both stand as far apart as later.
  have hStart :
      (Cursor.ofTokens ts).Relisted bytes
        ((Cursor.ofTokens ts').withLast
          { start := bytes, stop := bytes } Location.first) :=
    ⟨⟨ts, ts', rfl, rfl, hMoved⟩, .none, rfl,
      (Nat.zero_add bytes).symm⟩
  rcases Simulation.readItems_relocate
    (S := .relisted bytes) rfl (fun _ _ h => h) hPlain
    hStart with ⟨hBlocks, -⟩
  rw [ofTokens, ← ofCursor_withLast r _
    { start := bytes, stop := bytes } Location.first,
    funext (Block.shift_eq_relocate _)]
  exact hBlocks

/- The blocks of a script are those of its tokens. -/
theorem blocks_tokenize
    {r : Registry}
    (source : String)
    (hPlain : r.Plain) :
    (ofTokens r (tokenize source).1).blocks
      = (parse r source).blocks :=
  (ofCursor_prelexed hPlain.readsByCursor
    (Cursor.prelexed_ofSource source)).1

/-
  Every block of a script, read or failed, is in its span: no
  character is cut, and the text there is read as one block,
  which is the same but for its place. So nothing before or
  after the span has a part in the block.
-/
theorem parse_slice
    (r : Registry)
    (source : String)
    (hPlain : r.Plain) :
    ∀ b ∈ (parse r source).blocks,
      ∃ slice,
        b.span.Covers source slice
          ∧ (∀ other, b.span.Covers source other → other = slice)
          ∧ ∃ b',
              (parse r slice).blocks = [b']
                ∧ b = b'.shift
                    { bytes := b.span.start, lines := 0 } := by
  intro b hBlock
  rw [← blocks_tokenize source hPlain] at hBlock
  obtain ⟨front, own, rest, first, last, hTokens, hFirst, hLast,
    hSpan, hOwn⟩ := blocks_of_item hPlain hBlock
  obtain ⟨slice, hCovers, hMoved⟩ :=
    tokenize_slice hTokens hFirst hLast
  rw [← hSpan] at hCovers
  have hStart : b.span.start = first.span.start := by rw [hSpan]
  have hAgain := blocks_relisted hPlain hMoved
  rw [hOwn, blocks_tokenize slice hPlain] at hAgain
  obtain ⟨b', hOne, hShift⟩ :=
    List.map_eq_singleton_iff.mp hAgain.symm
  refine ⟨slice, hCovers, fun other hOther =>
    hOther.unique hCovers, b', hOne, ?_⟩
  rw [hStart, hShift]

/- A block that is read, and one that input ends. -/
theorem parse_slice_standard :
    let source := "é salary \x7b \x7d x tech \x7b time"
    Registry.standard.Plain
      ∧ (parse .standard source).outline
          = [("salary", none, false), ("tech", none, true)]
      ∧ ∀ b ∈ (parse .standard source).blocks,
          ∃ slice,
            b.span.Covers source slice
              ∧ ∃ b',
                  (parse .standard slice).blocks = [b']
                    ∧ b = b'.shift
                        { bytes := b.span.start, lines := 0 } := by
  refine ⟨by decide, by decide +kernel, ?_⟩
  intro b hBlock
  obtain ⟨slice, hCovers, -, hSame⟩ :=
    parse_slice .standard _ (by decide) b hBlock
  exact ⟨slice, hCovers, hSame⟩

end Script
end BlockScript
