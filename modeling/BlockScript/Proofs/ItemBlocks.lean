import BlockScript.Proofs.Realignment
import BlockScript.Proofs.TableGrammar

/-
  This file shows that a block is what its own tokens say:
  nothing before or after these has a part in it. A body that
  is closed is read as it would be by itself, and without its
  closing brace a block has failed.

  Key definitions include:
    * `Body.outcomeOf`
    * `Braces.outcome`
    * `Item.blockIn?`

  Key theorems include:
    * `Body.ok_iff_alone`
    * `Registry.readItem_eq_item`
    * `Script.blocks_eq_items`
    * `Script.blocks_of_item`
-/

namespace BlockScript

------------------------------------------------------------
-- Bodies by Themselves
------------------------------------------------------------

/-
  A table reads the fields of a block if they are what stands
  before its closing brace, and all of it is.
-/
theorem FieldTable.readFields_ok_iff
    {c : Cursor}
    {inner rest : List Token}
    {r : Token}
    {fields : List Field}
    (table : FieldTable)
    (hPositive : 0 < c.depth)
    (hInner : Balanced inner)
    (hRight : r.kind = .rBrace)
    (hTokens : c.tokens = inner ++ r :: rest) :
    (table.readFields [] c).1 = .ok fields
      ↔ table.Completes [] (inner ++ [r]) fields := by
  refine ⟨?_, ?_⟩
  · intro hOk
    have hJudges := table.recognizes_readFields.judges c
    have hStays := table.stays_readFields [] hPositive
    rcases hRead : table.readFields [] c with ⟨found, d⟩
    rw [hRead] at hOk hJudges hStays
    obtain rfl : found = .ok fields := hOk
    cases hJudges with
    | @member ts _ _ hMember hMoves =>
        cases hStays with
        | ok hSkip hDepth =>
            -- The block is closed here, so this is its end.
            obtain ⟨e, -, hClose, -, -, hRest, -⟩ :=
              Cursor.skipToClose_of_reaches hPositive hInner
                hRight hTokens .refl
                (hTokens ▸ ⟨inner ++ [r], by simp⟩)
            rw [hClose,
              Cursor.skipToClose_of_closed (.inr (by omega))]
              at hSkip
            obtain rfl : d = e := congrArg Prod.snd hSkip
            have hAll := hMoves.takes.tokens
            rw [hTokens, hRest, List.append_cons inner r rest,
              List.append_cancel_right_eq] at hAll
            rwa [hAll]
  · intro hMember
    obtain ⟨d, hRead, -⟩ :=
      table.recognizes_readFields.reads hMember
        (by rw [hTokens, List.append_cons])
    rw [hRead]

namespace Body

/- The cursor at the start of a body that stands alone. -/
def alone (tokens : List Token) : Cursor :=
  { source := .listed tokens, depth := 1 }

/- The header of no block in particular. -/
def anyHeader : Header :=
  { keyword := "", name := none, span := { start := 0, stop := 0 } }

/-
  What becomes of a body that stands alone. The header makes
  a difference to grammars of their own only.
-/
def outcomeOf
    (body : Body)
    (tokens : List Token) : Outcome :=
  match (body.read anyHeader (alone tokens)).1 with
  | .ok fields => .parsed fields
  | .error _ => .failed

/- A body is read in its block as it is read alone. -/
theorem ok_iff_alone
    {body : Body}
    {c : Cursor}
    {inner rest : List Token}
    {r : Token}
    (h : Header)
    (fields : List Field)
    (hPlain : body.isCustom = false)
    (hPositive : 0 < c.depth)
    (hInner : Balanced inner)
    (hRight : r.kind = .rBrace)
    (hTokens : c.tokens = inner ++ r :: rest) :
    (body.read h c).1 = .ok fields
      ↔ (body.read anyHeader (alone (inner ++ [r]))).1
          = .ok fields := by
  cases body with
  | unstructured =>
      have hClosed :
          ∀ (h : Header) (d : Cursor) (more : List Token),
            0 < d.depth →
              d.tokens = inner ++ r :: more →
                (unstructured.read h d).1 = .ok [] := by
        intro h d more hOpen hSame
        obtain ⟨e, -, hSkip, -⟩ :=
          Cursor.skipToClose_of_reaches hOpen hInner hRight hSame
            .refl (hSame ▸ ⟨inner ++ [r], by simp⟩)
        simp [read, hSkip]
      rw [hClosed h c rest hPositive hTokens,
        hClosed anyHeader (alone (inner ++ [r])) [] Nat.one_pos
          rfl]
  | table t =>
      exact (t.readFields_ok_iff hPositive hInner hRight
        hTokens).trans
        (t.readFields_ok_iff (c := alone (inner ++ [r]))
          Nat.one_pos hInner hRight rfl).symm
  | custom g => simp [isCustom] at hPlain

end Body

/- A block with its closing brace is what its body says. -/
theorem Header.outcome_readBlock
    {body : Body}
    {c : Cursor}
    {inner rest : List Token}
    {r : Token}
    (h : Header)
    (hPlain : body.isCustom = false)
    (hPositive : 0 < c.depth)
    (hInner : Balanced inner)
    (hRight : r.kind = .rBrace)
    (hTokens : c.tokens = inner ++ r :: rest) :
    (h.readBlock body c).1.outcome
      = body.outcomeOf (inner ++ [r]) := by
  have hStays :=
    body.staysBefore_of_plain h hPlain hPositive hInner hRight
      hTokens
  have hAlone :=
    fun fields =>
      body.ok_iff_alone h fields hPlain hPositive hInner hRight
        hTokens
  obtain ⟨lexed, -, -, hParsed, hFailed⟩ :=
    (h.realigns_of_staysBefore hPositive hInner hRight hTokens
      hStays).reports
  unfold Body.outcomeOf
  rcases hRead : (body.read h c).1 with
    (⟨cause, blamed⟩ | _) | fields
  · rw [(hFailed cause blamed hRead).1]
    split
    · rename_i fields hOk
      rw [← hAlone, hRead] at hOk
      simp at hOk
    · rfl
  · exact absurd hRead hStays.result
  · rw [(hParsed fields hRead).1, (hAlone fields).mp hRead]

------------------------------------------------------------
-- Items by Themselves
------------------------------------------------------------

/- What becomes of a block with a group in braces. -/
def Braces.outcome (body : Body) : Braces → Outcome
  | closed _ inner r => body.outcomeOf (inner ++ [r])
  | _ => .failed

namespace Item

/- What becomes of the block that an item gives. -/
def outcome (r : Registry) : Item → Outcome
  | block k _ _ braces =>
      match r.lookup k.text with
      | some kind => braces.outcome kind.body
      | none => .failed
  | _ => .failed

/- The block that an item gives by itself. -/
def blockIn?
    (r : Registry)
    (item : Item) : Option Block :=
  item.header?.map fun h =>
    { keyword := h.keyword,
      name := h.name,
      span := h.span,
      outcome := item.outcome r }

/-
  The block of an item goes from its keyword to the last of
  its tokens.
-/
theorem ends_of_blockIn?
    {r : Registry}
    {item : Item}
    {b : Block}
    (hGives : item.blockIn? r = some b) :
    ∃ keyword last,
      item.tokens.head? = some keyword
        ∧ item.tokens.getLast? = some last
        ∧ keyword.text = b.keyword
        ∧ b.span
            = { start := keyword.span.start,
                stop := last.span.stop } := by
  cases item with
  | unknown => simp [blockIn?, header?] at hGives
  | stray => simp [blockIn?, header?] at hGives
  | block k named name braces =>
      simp only [blockIn?, header?, Option.map_some,
        Option.some.injEq] at hGives
      refine ⟨k, (name.toList ++ braces.tokens).getLastD k, rfl,
        ?_, ?_, ?_⟩
      · rw [tokens, List.cons_append, List.getLast?_cons]
        simp
      · rw [← hGives]
      · rw [← hGives]

/- A block may also stand at the end. -/
theorem fits_nil
    {r : Registry}
    {rest : List Token}
    {item : Item}
    (hBlock : item.isBlock = true)
    (hFits : item.Fits r rest) :
    item.Fits r [] := by
  cases item with
  | block k named name braces =>
      obtain ⟨hKind, hNamed, hName, hBraces⟩ := hFits
      refine ⟨hKind, hNamed, ?_, ?_⟩
      · cases hName with
        | unnamed => exact .unnamed
        | name hKind => exact .name hKind
        | other hKind => exact .other hKind
        | missing hBrace =>
            refine .missing ?_
            intro t hHead
            apply hBrace
            cases braces with
            | absent => simp [Braces.tokens] at hHead
            | closed => simpa [Braces.tokens] using hHead
            | unclosed => simpa [Braces.tokens] using hHead
      · cases braces with
        | absent => simp [Braces.Fits]
        | closed => exact hBraces
        | unclosed => exact ⟨hBraces.1, rfl, hBraces.2.2⟩
  | unknown => simp [isBlock, header?] at hBlock
  | stray => simp [isBlock, header?] at hBlock

end Item

------------------------------------------------------------
-- Reading Items
------------------------------------------------------------

namespace Cursor.SameOutside

variable {c c' : Cursor}

theorem tokens_eq
    (hSame : SameOutside c c') :
    c'.tokens = c.tokens := by
  rw [hSame.rest]
  rfl

theorem atTop
    (hSame : SameOutside c c')
    (hTop : c'.AtTop) :
    c.AtTop := by
  intro hSome
  have hDepth : c'.depth = c.depth := by rw [hSame.rest]
  rw [← hSame.tokens_eq] at hSome
  rw [← hDepth, hTop hSome]

end Cursor.SameOutside

namespace Registry

open Item

/-
  A block with its closing brace becomes what its body says.
  Its tokens are known, and they are taken one part after the
  other: name, opening brace and body.
-/
theorem outcome_readKind
    {c : Cursor}
    {kind : BlockKind}
    {k l r : Token}
    {name : Option Token}
    {inner rest : List Token}
    (hPlain : kind.body.isCustom = false)
    (hTop : c.AtTop)
    (hLast : c.LastIs k)
    (hTokens :
      c.tokens
        = name.toList
            ++ ((Braces.closed l inner r).tokens ++ rest))
    (hName :
      NameFits kind.named name
        ((Braces.closed l inner r).tokens ++ rest))
    (hFits : (Braces.closed l inner r).Fits rest) :
    (readKind kind k c).1.outcome
      = kind.body.outcomeOf (inner ++ [r]) := by
  obtain ⟨hLeft, hInner, hRight⟩ := hFits
  obtain ⟨found, d, hRead, hFound, hTakes, hMore⟩ :=
    takes_readNamed kind hTop hLast
  have hGroup :
      d.tokens = (Braces.closed l inner r).tokens ++ rest :=
    (hFound.unique hName (hTakes.tokens.symm.trans hTokens)).2
  rw [readKind_eq, hRead]
  unfold readBraced
  rcases Cursor.takes_eat hMore with
    ⟨l', e, hEat, -, hTaken, hOne⟩ | ⟨e, -, hNone, hTaken, -⟩
  · rw [hTaken.tokens] at hGroup
    simp only [hEat]
    exact Header.outcome_readBlock _ hPlain (by omega) hInner
      hRight (by simpa using (List.cons.inj hGroup).2)
  · have hSame : e.tokens = d.tokens := hTaken.tokens.symm
    exact absurd hLeft
      (hNone l (by rw [hSame, hGroup]; rfl))

/-
  An item that is a block is read as such. What becomes of it
  is known without its body if it is not closed.
-/
theorem outcome_readItem
    {r : Registry}
    {c : Cursor}
    {t : Token}
    {b : Block}
    {item : Item}
    {taken rest : List Token}
    (hPlain : r.Plain)
    (hDepth : c.depth = Cursor.depthAfter 0 t.kind)
    (hLast : c.LastIs t)
    (hItem : item.tokens = t :: taken)
    (hTokens : c.tokens = taken ++ rest)
    (hFits : item.Fits r rest)
    (hGives : item.Gives b)
    (hRead : (r.readItem t c).1 = some b) :
    b.outcome = item.outcome r := by
  have hHeader := hGives.header
  cases item with
  | unknown => simp [header?] at hHeader
  | stray => simp [header?] at hHeader
  | block k named name braces =>
      obtain ⟨hKind, hNamed, hName, hBraces⟩ := hFits
      rw [Item.tokens, List.cons_append, List.cons.injEq] at hItem
      obtain ⟨rfl, rfl⟩ := hItem
      obtain ⟨kind, hLookup, rfl⟩ :=
        Option.map_eq_some_iff.mp hNamed
      have hBody : kind.body.isCustom = false :=
        hPlain kind (KindTable.mem_kinds_of_get? hLookup)
      simp only [outcome, hLookup]
      cases braces with
      | absent => exact hGives.failed rfl
      | unclosed => exact hGives.failed rfl
      | closed l inner r' =>
          have hTop : c.AtTop := by
            intro _
            rw [hDepth, hKind]
            rfl
          simp only [readItem, if_pos hKind, hLookup,
            Option.some.injEq] at hRead
          rw [← hRead]
          exact outcome_readKind hBody hTop hLast
            (by rw [hTokens, List.append_assoc]) hName hBraces

/-
  A token at the top begins an item, and what is read is what
  that item gives by itself. Where the item ends is known from
  bodies without structure.
-/
theorem readItem_eq_item
    {r : Registry}
    {c : Cursor}
    {t : Token}
    (hPlain : r.Plain)
    (hDepth : c.depth = Cursor.depthAfter 0 t.kind)
    (hLast : c.LastIs t) :
    ∃ item : Item,
      (r.readItem t c).1 = item.blockIn? r
        ∧ t :: c.tokens
            = item.tokens ++ (r.readItem t c).2.tokens
        ∧ item.Fits r (r.readItem t c).2.tokens
        ∧ (r.readItem t c).2.AtTop := by
  obtain ⟨item, taken, e, hBare, hItem, hFits, hTakes, hEnd⟩ :=
    takes_readItem (r := r.bare)
      (fun _ _ hLookup => body_bare hLookup) hDepth hLast
  rw [fits_bare] at hFits
  have hRuns :
      Simulation.outside.Items Outcome.FailsWith
        (r.readItem t c) (r.bare.readItem t c) :=
    Simulation.readItem (Simulation.registries_bare hPlain) rfl
      (Cursor.SameOutside.refl c)
  have hPlace :
      ∀ d : Cursor,
        d.SameOutside e →
          t :: c.tokens = item.tokens ++ d.tokens
            ∧ item.Fits r d.tokens
            ∧ d.AtTop := by
    intro d hSame
    refine ⟨?_, hSame.tokens_eq ▸ hFits, hSame.atTop hEnd⟩
    rw [hItem, hTakes.tokens, hSame.tokens_eq]
    rfl
  rw [hBare] at hRuns
  rcases hRead : r.readItem t c with ⟨block, d⟩
  rw [hRead] at hRuns
  refine ⟨item, ?_⟩
  generalize hBlock : item.block? = found at hRuns
  cases hRuns with
  | lost hLost => exact hLost.elim
  | passed hAfter =>
      refine ⟨?_, ?_⟩
      · rw [block?, Option.map_eq_none_iff] at hBlock
        rw [blockIn?, hBlock]
        rfl
      · cases hAfter with
        | inStep hSame => exact hPlace d hSame
        | ended hEnded => exact hEnded.elim
        | lost hLost => exact hLost.elim
  | @block b _ _ _ hSameBlock hSame =>
      have hGives := gives_of_same hBlock hSameBlock
      have hOutcome : b.outcome = item.outcome r :=
        outcome_readItem hPlain hDepth hLast hItem hTakes.tokens
          hFits hGives (by rw [hRead])
      refine ⟨?_, hPlace d hSame⟩
      rw [blockIn?, hGives.header, Option.map_some, ← hOutcome]
      rfl

/-
  All tokens are read as items, and the blocks are those that
  the items give by themselves.
-/
theorem readItems_eq_items
    {r : Registry}
    {c : Cursor}
    (blocks : List Block)
    (hPlain : r.Plain)
    (hTop : c.AtTop) :
    ∃ items,
      Splits r c.tokens items
        ∧ (r.readItems blocks c).1
            = blocks.reverse ++ items.filterMap (blockIn? r) := by
  fun_induction readItems r blocks c with
  | case1 blocks c d hNext =>
      have hNil : c.tokens = [] := by
        rw [← List.head?_eq_none_iff, ← c.next_fst, hNext]
      exact ⟨[], hNil ▸ .nil, by simp⟩
  | case2 blocks c t d hNext item ih =>
      obtain ⟨hTokens, hDepth, hLast⟩ := hTop.next hNext
      obtain ⟨first, hBlock, hTaken, hFits, hAfter⟩ :=
        readItem_eq_item hPlain hDepth hLast
      obtain ⟨items, hSplits, hReads⟩ := ih hAfter
      refine ⟨first :: items, ?_, ?_⟩
      · rw [hTokens, hTaken]
        exact .cons hFits hSplits
      · have hFirst : item.1 = first.blockIn? r := hBlock
        rw [hReads, hFirst]
        cases hGives : first.blockIn? r <;> simp [hGives]

end Registry

------------------------------------------------------------
-- Scripts
------------------------------------------------------------

/- Where an item stands among all tokens. -/
theorem Splits.fits_of_mem
    {r : Registry}
    {tokens : List Token}
    {items : List Item}
    {item : Item}
    (hSplits : Splits r tokens items)
    (hItem : item ∈ items) :
    ∃ front rest,
      tokens = front ++ (item.tokens ++ rest)
        ∧ item.Fits r rest := by
  induction hSplits with
  | nil => simp at hItem
  | @cons first rest items hFits _ ih =>
      rcases List.mem_cons.mp hItem with rfl | hItem
      · exact ⟨[], rest, rfl, hFits⟩
      · obtain ⟨front, more, hTokens, hThere⟩ := ih hItem
        refine ⟨first.tokens ++ front, more, ?_, hThere⟩
        rw [hTokens, List.append_assoc]

namespace Script

/- The blocks of tokens are those of the items among them. -/
theorem blocks_eq_items
    {r : Registry}
    (tokens : List Token)
    (hPlain : r.Plain) :
    ∃ items,
      Splits r tokens items
        ∧ (ofTokens r tokens).blocks
            = items.filterMap (Item.blockIn? r) :=
  Registry.readItems_eq_items (c := .ofTokens tokens) [] hPlain
    (fun _ => rfl)

/-
  Every block is the only one that is read from its own
  tokens, and these go from its start to its end.
-/
theorem blocks_of_item
    {r : Registry}
    {tokens : List Token}
    {b : Block}
    (hPlain : r.Plain)
    (hBlock : b ∈ (ofTokens r tokens).blocks) :
    ∃ front own rest first last,
      tokens = front ++ (own ++ rest)
        ∧ own.head? = some first
        ∧ own.getLast? = some last
        ∧ b.span
            = { start := first.span.start,
                stop := last.span.stop }
        ∧ (ofTokens r own).blocks = [b] := by
  obtain ⟨items, hSplits, hBlocks⟩ :=
    blocks_eq_items tokens hPlain
  rw [hBlocks, List.mem_filterMap] at hBlock
  obtain ⟨item, hItem, hGives⟩ := hBlock
  obtain ⟨front, rest, hTokens, hFits⟩ :=
    hSplits.fits_of_mem hItem
  obtain ⟨others, hOthers, hAlone⟩ :=
    blocks_eq_items item.tokens hPlain
  have hIsBlock : item.isBlock = true := by
    have hSome := congrArg Option.isSome hGives
    simpa [Item.blockIn?, Item.isBlock] using hSome
  have hOne : others = [item] := by
    apply hOthers.unique
    have hSplit := Splits.cons (item.fits_nil hIsBlock hFits) .nil
    rwa [List.append_nil] at hSplit
  rw [hOne, List.filterMap_cons_some hGives, List.filterMap_nil]
    at hAlone
  obtain ⟨first, last, hFirst, hLast, -, hSpan⟩ :=
    Item.ends_of_blockIn? hGives
  exact ⟨front, _, rest, first, last, hTokens, hFirst, hLast,
    hSpan, hAlone⟩

end Script
end BlockScript
