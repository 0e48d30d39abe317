import BlockScript.Proofs.NumeralGrammar
import BlockScript.Proofs.Registration
import BlockScript.Proofs.Rendering
import BlockScript.Proofs.Rounds

/-
  This file compares the keywords that can be registered with
  those that a script can have. What no token can be is
  refused. Numbers and texts with a comment in them are
  accepted, but no block ever begins with them.

  Key definitions include:
    * `Keywords.Occurs`
    * `Keywords.IsOther`
    * `Registry.Begins`

  Key theorems include:
    * `Keywords.occurs_iff`
    * `Registry.begins_iff`
    * `Registry.exists_block_iff`
    * `Registry.Builder.accepts_iff`
    * `Registry.Builder.accepts_unread`
-/

namespace BlockScript

------------------------------------------------------------
-- Comments in Words
------------------------------------------------------------

theorem startsComment_iff
    {text : List Char} :
    startsComment text = true
      ↔ ['/', '/'] <+: text ∨ ['/', '*'] <+: text := by
  constructor
  · intro hStarts
    unfold startsComment at hStarts
    split at hStarts
    · exact .inl ⟨_, rfl⟩
    · exact .inr ⟨_, rfl⟩
    · simp at hStarts
  · rintro (⟨rest, rfl⟩ | ⟨rest, rfl⟩) <;> rfl

/- A word holds a comment if two marks are in it. -/
theorem Word.holdsComment_iff
    {text : List Char} :
    holdsComment text = true
      ↔ ['/', '/'] <:+: text ∨ ['/', '*'] <:+: text := by
  induction text with
  | nil => simp [holdsComment]
  | cons c text ih =>
      rw [holdsComment, Bool.or_eq_true, startsComment_iff, ih,
        List.infix_cons_iff, List.infix_cons_iff]
      exact or_or_or_comm

------------------------------------------------------------
-- Keywords of Scripts
------------------------------------------------------------

namespace Keywords

/- A text that is an identifier of some script. -/
def Occurs (keyword : String) : Prop :=
  ∃ source,
    ∃ t ∈ (tokenize source).1,
      t.kind = .ident ∧ t.text = keyword

/-
  A text that is read as something else than an identifier,
  though no character in it is unfit: a number, or a text in
  which a comment starts.
-/
def IsOther (keyword : String) : Prop :=
  Number.Decimal.isNumeral keyword.toList = true
    ∨ ['/', '/'] <:+: keyword.toList
    ∨ ['/', '*'] <:+: keyword.toList

/- What occurs anywhere is all there is in its own text. -/
theorem occurs_iff
    {keyword : String} :
    Occurs keyword ↔ LexesAsIdent keyword := by
  constructor
  · rintro ⟨source, t, ht, hKind, rfl⟩
    exact lexesAsIdent_iff.mpr (isIdent_of_token ht hKind)
  · rintro ⟨t, hTokens, hKind, hText⟩
    refine ⟨keyword, t, ?_, hKind, hText⟩
    rw [hTokens]
    exact List.mem_singleton_self t

/- Which texts are identifiers. -/
theorem occurs_iff_fit
    (keyword : String) :
    Occurs keyword
      ↔ (keyword ≠ "" ∧ ∀ c ∈ keyword.toList, ¬ Unfit c)
        ∧ ¬ IsOther keyword := by
  have hSome : keyword.toList ≠ [] ↔ keyword ≠ "" := by
    rw [Ne, Ne, ← String.toList_inj]
    rfl
  have hFit :
      (∀ c ∈ keyword.toList, isDelimiter c = false)
        ↔ ∀ c ∈ keyword.toList, ¬ Unfit c := by
    simp only [unfit_iff, Bool.not_eq_true]
  have hKind :
      wordKind keyword.toList = .ident
        ↔ ¬ Number.Decimal.isNumeral keyword.toList = true := by
    rw [wordKind_eq_ident_iff, Ne, wordKind_eq_number_iff,
      Number.Decimal.isNumeral_iff]
  have hOther :
      ¬ IsOther keyword
        ↔ Word.holdsComment keyword.toList = false
          ∧ wordKind keyword.toList = .ident := by
    rw [IsOther, ← Word.holdsComment_iff, not_or, hKind,
      Bool.not_eq_true (Word.holdsComment _), and_comm]
  rw [occurs_iff, lexesAsIdent_iff, Word.isIdent_iff, hSome,
    hFit, hOther, and_assoc]

end Keywords

------------------------------------------------------------
-- Blocks of Scripts
------------------------------------------------------------

namespace Registry

/- A block of some script begins with a keyword. -/
def Begins
    (r : Registry)
    (keyword : String) : Prop :=
  ∃ source,
    ∃ x ∈ r.rounds (.ofSource source),
      x.token.text = keyword ∧ x.block.isSome = true

/- One word is a script with one round. -/
theorem next_of_ident
    {keyword : String}
    (hIdent : LexesAsIdent keyword) :
    ∃ t d,
      (Cursor.ofSource keyword).next = (some t, d)
        ∧ t.kind = .ident
        ∧ t.text = keyword
        ∧ d.tokens = [] := by
  rcases hIdent with ⟨t, hTokens, hKind, hText⟩
  have hAll : (Cursor.ofSource keyword).tokens = [t] := hTokens
  rcases Cursor.takes_next hAll with ⟨d, hNext, -, hRest⟩
  exact ⟨t, d, hNext, hKind, hText, hRest⟩

/-
  A keyword with a kind begins a block of some script if and
  only if it is an identifier of one.
-/
theorem begins_iff
    {r : Registry}
    {kind : BlockKind}
    {keyword : String}
    (hFound : r.lookup keyword = some kind) :
    r.Begins keyword ↔ Keywords.Occurs keyword := by
  constructor
  · rintro ⟨source, x, hx, rfl, hBlock⟩
    rcases Round.readItem_eq hx with ⟨d, -, hItem⟩
    rcases split_of_mem_rounds hx with ⟨front, back, hTokens, -⟩
    have hThere : x.token ∈ (tokenize source).1 := by
      rw [show (tokenize source).1 = front ++ x.token :: back
        from hTokens]
      exact List.mem_append_right _ List.mem_cons_self
    refine ⟨source, x.token, hThere, ?_, rfl⟩
    unfold readItem at hItem
    split at hItem
    · assumption
    · rw [← (Prod.mk.inj hItem).1] at hBlock
      cases hBlock
  · intro hOccurs
    rcases next_of_ident (Keywords.occurs_iff.mp hOccurs) with
      ⟨t, d, hNext, hKind, hText, -⟩
    let x : Round :=
      { head := .ofSource keyword,
        token := t,
        block := (r.readItem t d).1,
        after := (r.readItem t d).2 }
    have hx : x ∈ r.rounds (.ofSource keyword) := by
      rw [rounds_of_some r hNext]
      exact List.mem_cons_self
    refine ⟨keyword, x, hx, hText, ?_⟩
    simp only [x, readItem, if_pos hKind, hText, hFound]
    rfl

/- Without a body, a block has the keyword that was read. -/
theorem keyword_readKind
    {kind : BlockKind}
    {t : Token}
    {c : Cursor}
    (hEnd : c.tokens = []) :
    (readKind kind t c).1.keyword = t.text := by
  have hReaches : c.Reaches (readNamed kind t.text c).2 := by
    unfold readNamed
    split
    · exact reaches_readName t.text c
    · exact .refl
  have hSuffix := hReaches.tokens_suffix
  rw [hEnd, List.suffix_nil] at hSuffix
  rw [readKind_eq]
  generalize readNamed kind t.text c = named at hSuffix ⊢
  have hNone : named.2.peek.1 = none := by
    rw [Cursor.peek_fst, hSuffix]
    rfl
  rw [readBraced, Cursor.eat_eq, hNone, if_neg (by simp)]
  rfl

/-
  Whatever its body does, a keyword that is an identifier is
  that of a block.
-/
theorem exists_block_of_occurs
    {r : Registry}
    {kind : BlockKind}
    {keyword : String}
    (hFound : r.lookup keyword = some kind)
    (hOccurs : Keywords.Occurs keyword) :
    ∃ source,
      ∃ b ∈ (Script.parse r source).blocks,
        b.keyword = keyword := by
  rcases next_of_ident (Keywords.occurs_iff.mp hOccurs) with
    ⟨t, d, hNext, hKind, hText, hEnd⟩
  have hItem : (r.readItem t d).1 = some (readKind kind t d).1 := by
    rw [readItem, if_pos hKind, hText, hFound]
  have hBlocks :
      (Script.parse r keyword).blocks
        = (r.rounds (.ofSource keyword)).filterMap Round.block :=
    readItems_eq_rounds r [] (.ofSource keyword)
  refine ⟨keyword, (readKind kind t d).1, ?_,
    (keyword_readKind hEnd).trans hText⟩
  rw [hBlocks, rounds_of_some r hNext]
  exact List.mem_filterMap.mpr ⟨_, List.mem_cons_self, hItem⟩

/-
  Unless bodies change the headers of their blocks, there are
  blocks with a keyword if and only if it is an identifier.
-/
theorem exists_block_iff
    {r : Registry}
    {kind : BlockKind}
    {keyword : String}
    (hKeeps : r.KeepsHeaders)
    (hFound : r.lookup keyword = some kind) :
    (∃ source, ∃ b ∈ (Script.parse r source).blocks,
        b.keyword = keyword)
      ↔ Keywords.Occurs keyword := by
  constructor
  · rintro ⟨source, b, hBlock, rfl⟩
    rcases (Script.origin_of_parse hKeeps hBlock).1.keyword with
      ⟨t, ht, hKind, hText⟩
    exact ⟨source, t, ht, hKind, hText.symm⟩
  · exact exists_block_of_occurs hFound

namespace Builder

/- A kind that is accepted is the one found. -/
theorem lookup_of_register
    {b b' : Builder}
    {kind : BlockKind}
    (hOk : b.register kind = .ok b') :
    b'.registry.lookup kind.keyword = some kind := by
  have hRegisters := b.registers kind
  rw [register_eq_ok_iff.mp hOk] at hRegisters
  cases hRegisters with
  | replaced => simp [lookup_replace]
  | added => simp [lookup_add]

/- A new keyword is accepted if all its characters are fit. -/
theorem register_ok_iff
    {b : Builder}
    {kind : BlockKind}
    (hNew : b.registry.contains kind.keyword = false) :
    (∃ b', b.register kind = .ok b')
      ↔ kind.keyword ≠ ""
        ∧ ∀ c ∈ kind.keyword.toList, ¬ Keywords.Unfit c := by
  have hFree : kind.keyword ∉ b.registry.table.keywords := by
    intro hThere
    have hTaken := KindTable.contains_iff.mpr hThere
    exact Bool.false_ne_true (hNew.symm.trans hTaken)
  have hRegisters := b.registers kind
  simp only [register_eq_ok_iff]
  generalize b.registerInPlace kind = x at hRegisters
  cases hRegisters with
  | refused hRefusal =>
      constructor
      · rintro ⟨b', hOk⟩
        cases hOk
      · rintro ⟨hSome, hFit⟩
        cases hRefusal with
        | empty hEmpty => exact absurd hEmpty hSome
        | invalid hHolds hUnfit =>
            exact absurd hUnfit (hFit _ hHolds)
        | duplicate _ _ hTaken _ => exact absurd hTaken hFree
  | replaced _ _ hTaken _ => exact absurd hTaken hFree
  | added hSome hFit _ =>
      exact ⟨fun _ => ⟨hSome, hFit⟩, fun _ => ⟨_, rfl⟩⟩

/-
  Which new keywords are accepted: those that some script has
  as an identifier, and those that are a number or hold a
  comment. A keyword that is refused occurs nowhere, and one
  that is accepted begins blocks if and only if it occurs. It
  is then the keyword of blocks, and otherwise it is not,
  unless a body makes it so.
-/
theorem accepts_iff
    (b : Builder)
    (kind : BlockKind)
    (hNew : b.registry.contains kind.keyword = false) :
    ((∃ b', b.register kind = .ok b')
        ↔ Keywords.Occurs kind.keyword
          ∨ (kind.keyword ≠ ""
              ∧ ∀ c ∈ kind.keyword.toList, ¬ Keywords.Unfit c)
            ∧ Keywords.IsOther kind.keyword)
      ∧ (Keywords.Occurs kind.keyword
          ↔ LexesAsIdent kind.keyword)
      ∧ (∀ e,
          b.register kind = .error e →
            ¬ Keywords.Occurs kind.keyword)
      ∧ ∀ b',
          b.register kind = .ok b' →
            (b'.registry.Begins kind.keyword
              ↔ ¬ Keywords.IsOther kind.keyword)
            ∧ (¬ Keywords.IsOther kind.keyword →
                ∃ source,
                  ∃ x ∈ (Script.parse b'.registry source).blocks,
                    x.keyword = kind.keyword)
            ∧ (b'.registry.KeepsHeaders →
                (∃ source,
                  ∃ x ∈ (Script.parse b'.registry source).blocks,
                    x.keyword = kind.keyword) →
                  ¬ Keywords.IsOther kind.keyword) := by
  have hAccepted := register_ok_iff hNew
  have hOccurs := Keywords.occurs_iff_fit kind.keyword
  refine ⟨?_, Keywords.occurs_iff, ?_, ?_⟩
  · rw [hAccepted, hOccurs, ← and_or_left]
    exact (and_iff_left (em' _)).symm
  · intro e hError hThere
    rcases hAccepted.mpr (hOccurs.mp hThere).1 with ⟨b', hOk⟩
    rw [hError] at hOk
    cases hOk
  · intro b' hOk
    have hFound := lookup_of_register hOk
    have hSame :
        Keywords.Occurs kind.keyword
          ↔ ¬ Keywords.IsOther kind.keyword := by
      rw [hOccurs]
      exact and_iff_right (hAccepted.mp ⟨b', hOk⟩)
    refine ⟨(begins_iff hFound).trans hSame, ?_, ?_⟩
    · intro hNotOther
      exact exists_block_of_occurs hFound (hSame.mpr hNotOther)
    · intro hKeeps hBlock
      exact hSame.mp ((exists_block_iff hKeeps hFound).mp hBlock)

/- A kind with nothing in its body, under a keyword. -/
def plainKind (keyword : String) : BlockKind :=
  { keyword, named := true, body := .unstructured }

/- A word is accepted, and begins blocks. -/
theorem accepts_word :
    Registry.empty.contains "rock" = false
      ∧ (∃ b', register {} (plainKind "rock") = .ok b')
      ∧ ∀ b',
          register {} (plainKind "rock") = .ok b' →
            ∃ source,
              ∃ x ∈ (Script.parse b'.registry source).blocks,
                x.keyword = "rock" := by
  have hNew : Registry.empty.contains "rock" = false := by decide
  have hIdent : LexesAsIdent "rock" := by decide
  rcases accepts_iff {} (plainKind "rock") hNew with
    ⟨hAccepts, hOccurs, -, hBlocks⟩
  have hThere := hOccurs.mpr hIdent
  refine ⟨hNew, hAccepts.mpr (.inl hThere), ?_⟩
  have hNotOther := ((Keywords.occurs_iff_fit _).mp hThere).2
  intro b' hOk
  exact (hBlocks b' hOk).2.1 hNotOther

/-
  A number and a word with a comment in it are accepted as
  keywords, and no script has them as identifiers.
-/
theorem accepts_unread :
    ¬ (∀ (b : Builder) (kind : BlockKind),
        b.registry.contains kind.keyword = false →
          ((∃ b', b.register kind = .ok b')
            ↔ Keywords.Occurs kind.keyword))
      ∧ ∀ keyword ∈ ["12", "rock//fall"],
          (∃ b', register {} (plainKind keyword) = .ok b')
            ∧ ¬ Keywords.Occurs keyword := by
  have hUnread :
      ∀ keyword ∈ ["12", "rock//fall"],
        (∃ b', register {} (plainKind keyword) = .ok b')
          ∧ ¬ Keywords.Occurs keyword := by
    intro keyword hKeyword
    have hOther : ¬ LexesAsIdent keyword := by
      revert keyword
      decide
    refine ⟨?_, fun h => hOther (Keywords.occurs_iff.mp h)⟩
    rcases List.mem_cons.mp hKeyword with rfl | hRest
    · exact ⟨_, rfl⟩
    · rcases List.mem_singleton.mp hRest with rfl
      exact ⟨_, rfl⟩
  refine ⟨?_, hUnread⟩
  intro hAll
  rcases hUnread "12" (.head _) with ⟨hOk, hNone⟩
  exact hNone ((hAll {} (plainKind "12") rfl).mp hOk)

end Builder
end Registry
end BlockScript
