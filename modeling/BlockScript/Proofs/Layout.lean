import BlockScript.Proofs.Slices

/-
  This file shows that layout between tokens says nothing. A
  blank, and any comments after it, may be put in front of a
  text or behind any of its tokens: the tokens stay what they
  are, and those that come later move on.

  Key definitions include:
    * `Layout`
    * `Token.Spread`

  Key theorems include:
    * `Tiling.lift`
    * `Tiling.indent`
    * `Tiling.insert`
    * `tokenize_insert`
-/

namespace BlockScript

------------------------------------------------------------
-- Complete Layout
------------------------------------------------------------

/-
  Pieces of layout in a row: blanks, line comments with their
  line feeds, and closed comments. Unlike in a gap, no line
  comment is left to the end of the text.
-/
inductive Layout : List Char → Prop where
  | nil : Layout []
  | piece
      {piece rest : List Char}
      (hPiece : Piece piece)
      (hRest : Layout rest) :
      Layout (piece ++ rest)

/- Layout that is complete may stand before any gap. -/
theorem Layout.gap
    {layout gap rest : List Char}
    (hLayout : Layout layout)
    (hGap : Gap gap rest) :
    Gap (layout ++ gap) rest := by
  induction hLayout with
  | nil => exact hGap
  | piece hPiece _ ih =>
      rw [List.append_assoc]
      exact .piece hPiece ih

------------------------------------------------------------
-- Tilings with More Layout
------------------------------------------------------------

namespace Tiling

variable {p q : Position}
variable {text layout : List Char}
variable {ts : List Token}

/- A text without problems has none further on, either. -/
theorem lift
    {bytes : Nat}
    (hTiling : Tiling p text ts [])
    (hOffset : q.offset = p.offset + bytes) :
    ∃ ts',
      Tiling q text ts' []
        ∧ List.Forall₂ (Token.Moved bytes) ts ts' := by
  let here : Lexer :=
    { rest := text, position := p, pending := [] }
  let there : Lexer :=
    { rest := text, position := q, pending := [] }
  have hThere : Tiling q text there.tokens there.problems :=
    there.tiling rfl
  -- Moved back, these are the tokens that the text has here.
  rcases hThere.move hOffset with
    ⟨ts', ds', hBack, hMoved, hLength⟩
  rcases hTiling.unique (l := here) rfl rfl rfl with
    ⟨hTokens, hProblems⟩
  rcases hBack.unique (l := here) rfl rfl rfl with
    ⟨hTokens', hProblems'⟩
  have hNone : there.problems = [] := by
    rw [← List.length_eq_zero_iff, ← hLength, ← hProblems',
      hProblems, List.length_nil]
  rw [hNone] at hThere
  rw [← hTokens', hTokens] at hMoved
  exact ⟨there.tokens, hThere, hMoved⟩

/- Complete layout in front moves the tokens of a text. -/
theorem indent
    (hTiling : Tiling p text ts [])
    (hLayout : Layout layout) :
    ∃ ts',
      Tiling p (layout ++ text) ts' []
        ∧ List.Forall₂
            (Token.Moved (String.ofList layout).utf8ByteSize)
            ts ts' := by
  rcases hTiling.lift (p.offset_after layout) with
    ⟨ts', hThere, hMoved⟩
  refine ⟨ts', ?_, hMoved⟩
  generalize hNone : ([] : List Diagnostic) = ds at hThere
  cases hThere with
  | done hGap => exact .done (hLayout.gap hGap)
  | openComment => simp at hNone
  | openString => simp at hNone
  | @token _ gap _ _ _ _ _ hGap hWrites hRest =>
      subst hNone
      rw [← List.append_assoc]
      rw [← Position.after_append p layout gap] at hRest ⊢
      exact .token (hLayout.gap hGap) hWrites hRest

/-
  Layout that begins with a blank may be put behind a token.
  Those before it stay where they are, and the others move.
-/
theorem insert
    {before after : List Token}
    {s : Char}
    (hTiling : Tiling p text (before ++ after) [])
    (hBlank : Text.isBlank s = true)
    (hLayout : Layout (s :: layout)) :
    ∃ front back after',
      text = front ++ back
        ∧ before.foldl (fun _ t => t.span.stop) p.offset
            = (p.after front).offset
        ∧ Tiling p (front ++ (s :: layout ++ back))
            (before ++ after') []
        ∧ List.Forall₂
            (Token.Moved
              (String.ofList (s :: layout)).utf8ByteSize)
            after after' := by
  rcases hTiling.cut with
    ⟨front, back, rfl, hStop, -,
      ⟨hBack, hOther⟩ | ⟨-, -, hSome, -⟩⟩
  · rcases hBack.indent hLayout with ⟨after', hThere, hMoved⟩
    have hEnds : EndsWord (s :: (layout ++ back)) :=
      endsWord_blank _ hBlank
    exact ⟨front, back, after', rfl, hStop,
      hOther _ after' [] hEnds hThere, hMoved⟩
  · exact absurd rfl hSome

end Tiling

------------------------------------------------------------
-- Whole Texts
------------------------------------------------------------

/-
  A token of a text and what it becomes if something is put
  into the text at an offset: the same token before that
  offset, and one that is moved by some bytes after it.
-/
inductive Token.Spread
    (offset bytes : Nat)
    (t t' : Token) : Prop where
  | before
      (hBefore : t.span.stop ≤ offset)
      (hSame : t' = t)
  | after
      (hAfter : offset ≤ t.span.start)
      (hMoved : t.Moved bytes t')

/- The start of a text and the ends of its tokens divide it. -/
theorem exists_divided
    {source : String}
    {offset : Nat}
    (hOffset :
      offset = 0
        ∨ ∃ t ∈ (tokenize source).1, t.span.stop = offset) :
    ∃ before after,
      (tokenize source).1 = before ++ after
        ∧ before.foldl (fun _ t => t.span.stop) 0 = offset
        ∧ (∀ t ∈ before, t.span.stop ≤ offset)
        ∧ ∀ t ∈ after, offset ≤ t.span.start := by
  have hTiling := tiling_tokenize source
  have hOrder := hTiling.pairwise
  rcases hOffset with rfl | ⟨t, ht, rfl⟩
  · exact ⟨[], _, rfl, rfl, by simp, by simp⟩
  · rcases List.append_of_mem ht with ⟨before, after, hTokens⟩
    rw [hTokens, List.pairwise_append] at hOrder
    rcases hOrder with ⟨-, hLater, hAcross⟩
    refine ⟨before ++ [t], after, by simp [hTokens], ?_, ?_, ?_⟩
    · rw [List.foldl_append]
      rfl
    · intro s hs
      rcases List.mem_append.mp hs with hs | hs
      · have hNext := hAcross s hs t List.mem_cons_self
        have hSome := (hTiling.bounds t ht).2.1
        omega
      · rcases List.mem_singleton.mp hs with rfl
        exact Nat.le_refl _
    · intro s hs
      exact List.rel_of_pairwise_cons hLater hs

/-
  In a text without problems, layout that begins with a blank
  may be put in front of everything or behind any token. What
  comes of it has no problems either, and the same tokens:
  those before the offset stay in their places, and those
  after it are moved by the bytes of the layout.
-/
theorem tokenize_insert
    (source layout : String)
    (offset : Nat)
    (hLexed : (tokenize source).2 = [])
    (hOffset :
      offset = 0
        ∨ ∃ t ∈ (tokenize source).1, t.span.stop = offset)
    (hBlank :
      ∃ s ∈ layout.toList.head?, Text.isBlank s = true)
    (hLayout : Layout layout.toList) :
    (∃ front back,
        source = front ++ back ∧ front.utf8ByteSize = offset)
      ∧ ∀ front back,
          source = front ++ back →
            front.utf8ByteSize = offset →
              (tokenize (front ++ layout ++ back)).2 = []
                ∧ List.Forall₂
                    (Token.Spread offset layout.utf8ByteSize)
                    (tokenize source).1
                    (tokenize (front ++ layout ++ back)).1 := by
  rcases hBlank with ⟨s, hHead, hBlank⟩
  rcases List.head?_eq_some_iff.mp hHead with ⟨more, hText⟩
  rcases exists_divided hOffset with
    ⟨before, after, hTokens, hFold, hBefore, hAfter⟩
  have hTiling := tiling_tokenize source
  rw [hText] at hLayout
  rw [hLexed, hTokens] at hTiling
  rcases hTiling.insert hBlank hLayout with
    ⟨front, back, after', hSource, hStop, hInserted, hMoved⟩
  have hFront : (String.ofList front).utf8ByteSize = offset := by
    rw [← Position.offset_first_after, ← hStop, ← hFold]
    rfl
  refine ⟨⟨String.ofList front, String.ofList back, ?_, hFront⟩, ?_⟩
  · rw [← String.toList_inj, hSource]
    simp
  · intro front' back' hDivided hBytes
    have hWhole : front ++ back = front'.toList ++ back'.toList := by
      rw [← hSource, hDivided, String.toList_append]
    have hSame : front = front'.toList := by
      apply prefix_unique hWhole
      rw [hFront, String.ofList_toList, hBytes]
    rw [← hSame, List.append_cancel_left_eq] at hWhole
    have hNew :
        (front' ++ layout ++ back').toList
          = front ++ (s :: more ++ back) := by
      simp [hSame, hWhole, hText]
    rw [← hNew] at hInserted
    rcases hInserted.unique
        (l := .ofSource (front' ++ layout ++ back')) rfl rfl rfl
      with ⟨hThere, hNone⟩
    rw [tokenize_eq (front' ++ layout ++ back')]
    refine ⟨hNone, ?_⟩
    rw [hThere, hTokens]
    apply List.rel_append
    · rw [List.forall₂_same]
      intro t ht
      exact .before (hBefore t ht) rfl
    · rw [← hText, String.ofList_toList] at hMoved
      have hBoth :=
        (List.forall₂_and_left _ _).mpr ⟨hAfter, hMoved⟩
      refine hBoth.imp ?_
      rintro t t' ⟨hLater, hToken⟩
      exact .after hLater hToken

/-
  A word that ends with a slash is held apart from a string
  by a blank, a comment that looks closed before it is, and a
  line comment.
-/
theorem tokenize_insert_comments :
    let source := "a/\"b\""
    let layout := " /*/*/// y\n"
    (tokenize source).2 = []
      ∧ (∃ t ∈ (tokenize source).1, t.span.stop = 2)
      ∧ (∃ s ∈ layout.toList.head?, Text.isBlank s = true)
      ∧ Layout layout.toList
      ∧ (tokenize ("a/" ++ layout ++ "\"b\"")).2 = []
      ∧ List.Forall₂ (Token.Spread 2 layout.utf8ByteSize)
          (tokenize source).1
          (tokenize ("a/" ++ layout ++ "\"b\"")).1 := by
  intro source layout
  have hLexed : (tokenize source).2 = [] := by decide +kernel
  have hOffset :
      ∃ t ∈ (tokenize source).1, t.span.stop = 2 := by
    decide +kernel
  have hMark : ¬ ['*', '/'] <:+: ['/'] := by decide
  have hFeed : '\n' ∉ [' ', 'y'] := by decide
  have hText :
      layout.toList
        = [' '] ++ (['/', '*', '/', '*', '/']
            ++ (['/', '/', ' ', 'y', '\n'] ++ [])) := by
    decide
  have hLayout : Layout layout.toList := by
    rw [hText]
    exact .piece (.blank (by decide))
      (.piece (.comment hMark) (.piece (.line hFeed) .nil))
  have hBlank :
      ∃ s ∈ layout.toList.head?, Text.isBlank s = true :=
    ⟨' ', by decide, by decide⟩
  refine ⟨hLexed, hOffset, hBlank, hLayout, ?_⟩
  have hInsert :=
    tokenize_insert source layout 2 hLexed (.inr hOffset)
      hBlank hLayout
  exact hInsert.2 "a/" "\"b\"" (by decide) (by decide)

end BlockScript
