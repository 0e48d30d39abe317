import Mathlib.Data.List.Forall2
import BlockScript.Proofs.Continuation
import BlockScript.Proofs.Taking
import BlockScript.Proofs.Tiling

/-
  This file shows that a slice of a text has the tokens that
  stand there. If a slice goes from the start of a token to
  the end of another, it is tiled by these tokens, moved to
  the start of the slice.

  Key definitions include:
    * `Token.Moved`
    * `Span.Covers`

  Key theorems include:
    * `Writes.replace`
    * `Tiling.drop`
    * `Tiling.cut`
    * `Tiling.divide`
    * `Tiling.take`
    * `Tiling.move`
    * `tokenize_slice`
-/

namespace BlockScript

------------------------------------------------------------
-- Layout before Less
------------------------------------------------------------

/- Only at the end does layout depend on what follows it. -/
theorem Gap.before
    {gap rest : List Char}
    (other : List Char)
    (hSome : rest ≠ [])
    (hGap : Gap gap rest) :
    Gap gap other := by
  induction hGap with
  | nil => exact .nil
  | piece hPiece _ ih => exact .piece hPiece (ih hSome)
  | lastLine => exact absurd rfl hSome

/- Whether layout is a comment is seen from the layout. -/
theorem Gap.startsComment_eq
    {gap rest : List Char}
    (one other : List Char)
    (hSome : gap ≠ [])
    (hGap : Gap gap rest) :
    startsComment (gap ++ one)
      = startsComment (gap ++ other) := by
  cases hGap with
  | nil => exact absurd rfl hSome
  | piece hPiece _ =>
      cases hPiece with
      | @blank c hBlank =>
          have hSlash : c ≠ '/' :=
            ne_of_isBlank hBlank (by decide)
          have hNone :
              ∀ text, startsComment (c :: text) = false := by
            intro text
            unfold startsComment
            split <;> simp_all
          simp only [List.cons_append, hNone]
      | line => rfl
      | comment => rfl
  | lastLine => rfl

/-
  A word has no comments either if what follows it is replaced
  from some point on, where a word may end.
-/
theorem Uncommented.replace
    {word front back other : List Char}
    (hEnds : EndsWord other)
    (hNone : Uncommented (front ++ back) word) :
    Uncommented (front ++ other) word := by
  induction word with
  | nil => trivial
  | cons c word ih =>
      refine ⟨?_, ih hNone.2⟩
      have hFirst := hNone.1
      rw [← List.append_assoc, ← List.cons_append] at hFirst ⊢
      rw [startsComment_ended _ hEnds]
      exact startsComment_of_append hFirst

/-
  What follows a token may be replaced from some point on, if
  a word may end there and a comment that starts before the
  point does not go beyond it with its first two characters.
-/
theorem Writes.replace
    {source front back other : List Char}
    {x : Spelling}
    (hEnds : EndsWord other)
    (hComment :
      front ≠ [] →
        startsComment (front ++ back) = true →
          startsComment front = true)
    (hWrites : Writes (front ++ back) source x) :
    Writes (front ++ other) source x := by
  cases hWrites with
  | punctuation hKind => exact .punctuation hKind
  | string hContent => exact .string hContent
  | word hSome hPlain hNone hStop =>
      refine .word hSome hPlain (hNone.replace hEnds) ?_
      cases front with
      | nil =>
          rcases hEnds.cases with rfl | ⟨s, more, hBlank, rfl⟩
          · simp [StopsWord]
          · simp [StopsWord, isDelimiter, hBlank]
      | cons d front =>
          intro c hHead
          rcases hStop c hHead with hMark | hMark
          · exact .inl hMark
          · right
            rw [startsComment_ended _ hEnds]
            exact hComment (by simp) hMark

/- A token with layout in front does not start a comment. -/
theorem Gap.startsComment_written
    {gap source rest : List Char}
    {x : Spelling}
    (other : List Char)
    (hGap : Gap gap (source ++ rest))
    (hWrites : Writes rest source x)
    (hStarts : startsComment (gap ++ (source ++ rest)) = true) :
    startsComment (gap ++ (source ++ other)) = true := by
  by_cases hNone : gap = []
  · subst hNone
    obtain ⟨c, tail, rfl, -, hNot, -⟩ := lexeme_of_writes hWrites
    rw [List.nil_append, List.cons_append, hNot] at hStarts
    simp at hStarts
  · rwa [hGap.startsComment_eq _ _ hNone]

------------------------------------------------------------
-- Parts of Tilings
------------------------------------------------------------

namespace Tiling

/-
  From the start of a token on, a text is tiled by that token
  and those after it. The induction is on those before it.
-/
theorem drop
    {p : Position}
    {text : List Char}
    {before ts : List Token}
    {t : Token}
    {ds : List Diagnostic}
    (hTiling : Tiling p text (before ++ t :: ts) ds) :
    ∃ front rest,
      text = front ++ rest
        ∧ t.span.start = (p.after front).offset
        ∧ Tiling (p.after front) rest (t :: ts) ds := by
  induction before generalizing p text with
  | nil =>
      cases hTiling with
      | @openString _ gap body _ _ hContent =>
          have hThere :
              Tiling (p.after gap) ([] ++ '"' :: body) _ _ :=
            .openString .nil hContent
          exact ⟨gap, '"' :: body, rfl, rfl, hThere⟩
      | @token _ gap source rest _ _ _ _ hWrites hRest =>
          have hThere :
              Tiling (p.after gap) ([] ++ (source ++ rest)) _ _ :=
            .token .nil hWrites hRest
          exact ⟨gap, source ++ rest, rfl, rfl, hThere⟩
  | cons s before ih =>
      rw [List.cons_append] at hTiling
      generalize hAll : before ++ t :: ts = all at hTiling
      cases hTiling with
      | openString => simp at hAll
      | @token _ gap source rest _ _ _ _ hWrites hRest =>
          subst hAll
          obtain ⟨front, back, rfl, hStart, hTiling⟩ := ih hRest
          refine ⟨gap ++ (source ++ front), back, ?_, ?_, ?_⟩
          · simp only [List.append_assoc]
          · rw [hStart, Position.after_append,
              Position.after_append]
          · rwa [Position.after_append, Position.after_append]

/-
  Behind a token a text is cut in two. What stands there is
  tiled by the later tokens, and anything may stand there
  instead if a word may end before it. Only a string that is
  not closed has nothing behind it. The induction is on the
  tokens before the cut; a comment that starts the text starts
  the part before the cut, so that a word in front of it still
  ends there.
-/
theorem cut
    {p : Position}
    {text : List Char}
    {before after : List Token}
    {ds : List Diagnostic}
    (hTiling : Tiling p text (before ++ after) ds) :
    ∃ front back,
      text = front ++ back
        ∧ before.foldl (fun _ t => t.span.stop) p.offset
            = (p.after front).offset
        ∧ (front ≠ [] →
            startsComment text = true →
              startsComment front = true)
        ∧ (Tiling (p.after front) back after ds
              ∧ (∀ other ts ds',
                  EndsWord other →
                    Tiling (p.after front) other ts ds' →
                      Tiling p (front ++ other) (before ++ ts) ds')
            ∨ back = []
              ∧ after = []
              ∧ ds ≠ []
              ∧ Tiling p front before ds) := by
  induction before generalizing p text with
  | nil =>
      exact ⟨[], text, rfl, rfl, by simp, .inl ⟨hTiling,
        fun _ _ _ _ hOther => hOther⟩⟩
  | cons t before ih =>
      rw [List.cons_append] at hTiling
      generalize hAll : before ++ after = all at hTiling
      cases hTiling with
      | @openString _ gap body _ hGap hContent =>
          obtain ⟨rfl, rfl⟩ := List.append_eq_nil_iff.mp hAll
          refine ⟨gap ++ '"' :: body, [], by simp, ?_,
            fun _ h => h,
            .inr ⟨rfl, rfl, by simp, .openString hGap hContent⟩⟩
          rw [Position.after_append]
          rfl
      | @token _ gap source rest x _ _ hGap hWrites hRest =>
          subst hAll
          obtain ⟨front, back, rfl, hStop, hComment, hCut⟩ :=
            ih hRest
          have hSource := hWrites.source_ne_nil
          have hThere :
              ∀ other, Gap gap (source ++ other) :=
            fun _ => hGap.before _ (by simp [hSource])
          refine ⟨gap ++ (source ++ front), back, ?_, ?_, ?_, ?_⟩
          · simp only [List.append_assoc]
          · rw [Position.after_append, Position.after_append]
            exact hStop
          · exact fun _ => hGap.startsComment_written _ hWrites
          · rw [Position.after_append, Position.after_append]
            rcases hCut with
              ⟨hBack, hOther⟩ | ⟨rfl, hNone, hSome, hFront⟩
            · refine .inl ⟨hBack, ?_⟩
              intro other ts ds' hEnds hTiling
              rw [List.append_assoc, List.append_assoc]
              exact .token (hThere _)
                (hWrites.replace hEnds hComment)
                (hOther other ts ds' hEnds hTiling)
            · rw [List.append_nil] at hWrites
              exact .inr
                ⟨rfl, hNone, hSome,
                  .token (hThere _) hWrites hFront⟩

/-
  What stands before the cut and what stands behind it have
  tilings of their own. A problem with the text is one with
  the second part, unless it is a string that goes up to the
  cut.
-/
theorem divide
    {p : Position}
    {text : List Char}
    {before after : List Token}
    {ds : List Diagnostic}
    (hTiling : Tiling p text (before ++ after) ds) :
    ∃ front back ds' left,
      text = front ++ back
        ∧ before.foldl (fun _ t => t.span.stop) p.offset
            = (p.after front).offset
        ∧ Tiling p front before ds'
        ∧ Tiling (p.after front) back after left
        ∧ (left = ds ∨ left = [] ∧ back = []) := by
  obtain ⟨front, back, rfl, hStop, -, hCut⟩ := hTiling.cut
  rcases hCut with ⟨hBack, hOther⟩ | ⟨rfl, rfl, -, hFront⟩
  · have hFront := hOther [] [] [] endsWord_nil (.done .nil)
    rw [List.append_nil, List.append_nil] at hFront
    exact ⟨front, back, [], ds, rfl, hStop, hFront, hBack,
      .inl rfl⟩
  · exact ⟨front, [], ds, [], rfl, hStop, hFront, .done .nil,
      .inr ⟨rfl, rfl⟩⟩

/-
  Up to the end of a token, a text is tiled by that token and
  those before it.
-/
theorem take
    {p : Position}
    {text : List Char}
    {ts rest : List Token}
    {ds : List Diagnostic}
    (hTiling : Tiling p text (ts ++ rest) ds) :
    ∃ slice back ds',
      text = slice ++ back
        ∧ ts.foldl (fun _ t => t.span.stop) p.offset
            = (p.after slice).offset
        ∧ Tiling p slice ts ds' := by
  obtain ⟨slice, back, ds', -, hText, hStop, hSlice, -, -⟩ :=
    hTiling.divide
  exact ⟨slice, back, ds', hText, hStop, hSlice⟩

end Tiling

------------------------------------------------------------
-- Moved Tilings
------------------------------------------------------------

/- The same token, further on in the text by some bytes. -/
structure Token.Moved
    (bytes : Nat)
    (t t' : Token) : Prop where
  kind_eq : t'.kind = t.kind
  text_eq : t'.text = t.text
  start : t'.span.start = t.span.start + bytes
  stop : t'.span.stop = t.span.stop + bytes

theorem Spelling.moved_token
    {p q : Position}
    {bytes : Nat}
    (x : Spelling)
    (source : List Char)
    (hOffset : p.offset = q.offset + bytes) :
    (x.token q source).Moved bytes (x.token p source) where
  kind_eq := rfl
  text_eq := rfl
  start := hOffset
  stop := by
    simp only [token, Position.spanTo, Position.offset_after,
      hOffset]
    omega

/- A text has the same tokens wherever it stands. -/
theorem Tiling.move
    {p q : Position}
    {text : List Char}
    {ts : List Token}
    {ds : List Diagnostic}
    {bytes : Nat}
    (hTiling : Tiling p text ts ds)
    (hOffset : p.offset = q.offset + bytes) :
    ∃ ts' ds',
      Tiling q text ts' ds'
        ∧ List.Forall₂ (Token.Moved bytes) ts' ts
        ∧ ds'.length = ds.length := by
  have hAfter :
      ∀ {p q : Position} (text : List Char),
        p.offset = q.offset + bytes →
          (p.after text).offset
            = (q.after text).offset + bytes := by
    intro p q text hOffset
    rw [Position.offset_after, Position.offset_after, hOffset]
    omega
  induction hTiling generalizing q with
  | done hGap => exact ⟨[], [], .done hGap, .nil, rfl⟩
  | openComment hGap hMark =>
      exact ⟨[], _, .openComment hGap hMark, .nil, rfl⟩
  | openString hGap hContent =>
      exact ⟨_, _, .openString hGap hContent,
        .cons (Spelling.moved_token _ _ (hAfter _ hOffset)) .nil,
        rfl⟩
  | token hGap hWrites _ ih =>
      obtain ⟨ts', ds', hRest, hMoved, hLength⟩ :=
        ih (hAfter _ (hAfter _ hOffset))
      exact ⟨_, ds', .token hGap hWrites hRest,
        .cons (Spelling.moved_token _ _ (hAfter _ hOffset))
          hMoved,
        hLength⟩

------------------------------------------------------------
-- Slices
------------------------------------------------------------

/-
  What stands in a range of bytes of a text. The range begins
  and ends between characters.
-/
def Span.Covers
    (s : Span)
    (source slice : String) : Prop :=
  ∃ front back,
    source = front ++ slice ++ back
      ∧ s.start = front.utf8ByteSize
      ∧ s.stop = (front ++ slice).utf8ByteSize

/- Texts that begin alike for as many bytes begin alike. -/
theorem prefix_unique
    {a b x y : List Char}
    (hText : a ++ x = b ++ y)
    (hBytes :
      (String.ofList a).utf8ByteSize
        = (String.ofList b).utf8ByteSize) :
    a = b := by
  have hNone :
      ∀ front more : List Char,
        (String.ofList front).utf8ByteSize
            = (String.ofList (front ++ more)).utf8ByteSize →
          more = [] := by
    intro front more hSame
    rw [String.ofList_append, String.utf8ByteSize_append,
      Nat.left_eq_add, String.utf8ByteSize_eq_zero_iff] at hSame
    simpa using congrArg String.toList hSame
  rcases List.append_eq_append_iff.mp hText with
    ⟨more, rfl, -⟩ | ⟨more, rfl, -⟩
  · rw [hNone a more hBytes, List.append_nil]
  · rw [hNone b more hBytes.symm, List.append_nil]

/- A text is divided at a byte in one way. -/
theorem append_unique
    {a b x y : String}
    (hText : a ++ x = b ++ y)
    (hBytes : a.utf8ByteSize = b.utf8ByteSize) :
    a = b ∧ x = y := by
  have hWhole : a.toList ++ x.toList = b.toList ++ y.toList := by
    rw [← String.toList_append, hText, String.toList_append]
  have hFront : a.toList = b.toList := by
    apply prefix_unique hWhole
    rw [String.ofList_toList, String.ofList_toList, hBytes]
  rw [hFront, List.append_cancel_left_eq] at hWhole
  exact ⟨String.toList_inj.mp hFront, String.toList_inj.mp hWhole⟩

/- One text stands in a range of bytes at most. -/
theorem Span.Covers.unique
    {s : Span}
    {source slice other : String}
    (hSlice : s.Covers source slice)
    (hOther : s.Covers source other) :
    slice = other := by
  obtain ⟨front, back, hSource, hStart, hStop⟩ := hSlice
  obtain ⟨front', back', hSource', hStart', hStop'⟩ := hOther
  have hWhole :=
    append_unique (hSource.symm.trans hSource')
      (hStop.symm.trans hStop')
  exact (append_unique hWhole.1 (hStart.symm.trans hStart')).2

theorem Position.offset_first_after
    (text : List Char) :
    (first.after text).offset
      = (String.ofList text).utf8ByteSize := by
  rw [offset_after]
  exact Nat.zero_add _

/-
  From the start of a token to the end of another, a text has
  the tokens between them, and no others.
-/
theorem tokenize_slice
    {source : String}
    {front own rest : List Token}
    {first last : Token}
    (hTokens : (tokenize source).1 = front ++ (own ++ rest))
    (hFirst : own.head? = some first)
    (hLast : own.getLast? = some last) :
    ∃ slice,
      Span.Covers
          { start := first.span.start, stop := last.span.stop }
          source slice
        ∧ List.Forall₂ (Token.Moved first.span.start)
            (tokenize slice).1 own := by
  obtain ⟨more, rfl⟩ := List.head?_eq_some_iff.mp hFirst
  have hTiling := tiling_tokenize source
  rw [hTokens, List.cons_append] at hTiling
  obtain ⟨before, text, hText, hStart, hRest⟩ := hTiling.drop
  rw [← List.cons_append] at hRest
  obtain ⟨slice, back, ds, rfl, hStop, hSlice⟩ := hRest.take
  have hFar :
      (Position.first.after before).offset
        = Position.first.offset + first.span.start := by
    rw [hStart, Position.first, Nat.zero_add]
  obtain ⟨ts, ds', hOwn, hMoved, -⟩ := hSlice.move hFar
  have hSame :
      (tokenize (String.ofList slice)).1 = ts := by
    rw [tokenize_eq]
    exact (hOwn.unique rfl (by simp [Lexer.ofSource]) rfl).1
  refine ⟨String.ofList slice,
    ⟨String.ofList before, String.ofList back, ?_, ?_, ?_⟩, ?_⟩
  · rw [← String.toList_inj, hText]
    simp
  · rw [hStart, Position.offset_first_after]
  · rw [List.foldl_cons, Cursor.foldl_last (·.span.stop)] at hStop
    rw [List.getLast?_cons, Option.some.injEq] at hLast
    rw [← hLast, ← List.getLastD_eq_getLast?, hStop,
      ← Position.after_append, Position.offset_first_after,
      String.ofList_append]
  · rwa [hSame]

end BlockScript
