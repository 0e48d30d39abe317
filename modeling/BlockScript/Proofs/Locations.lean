import Mathlib.Data.List.Induction
import BlockScript.Proofs.Slices

/-
  This file says what the line and the column of a byte in a
  text are, and shows that tokens and problems with the text
  are located there, whatever stands before them.

  Key definitions include:
    * `Location.ofText`
    * `Location.Marks`
    * `Occupies`

  Key theorems include:
    * `Position.location_after`
    * `Location.Marks.unique`
    * `Location.marks_moved_iff`
    * `Tiling.occupies`
    * `occupies_of_token`
    * `tokenize_located`
-/

namespace BlockScript

------------------------------------------------------------
-- Lines and Columns
------------------------------------------------------------

namespace Location

/-
  The location after a text: the line is counted by all line
  feeds, the column by the characters after the last of them.
-/
def ofText (text : List Char) : Location :=
  { line := 1 + text.count '\n',
    column := 1 + (text.reverse.takeWhile (· != '\n')).length }

/- The location of a byte offset between two characters. -/
def Marks
    (l : Location)
    (source : String)
    (offset : Nat) : Prop :=
  ∃ before after,
    source.toList = before ++ after
      ∧ (String.ofList before).utf8ByteSize = offset
      ∧ l = ofText before

/- A byte offset has one location. -/
theorem Marks.unique
    {l l' : Location}
    {source : String}
    {offset : Nat}
    (hMarks : l.Marks source offset)
    (hOther : l'.Marks source offset) :
    l = l' := by
  rcases hMarks with ⟨before, after, hText, hBytes, rfl⟩
  rcases hOther with ⟨before', after', hText', hBytes', rfl⟩
  have hSame : before = before' :=
    prefix_unique (hText.symm.trans hText')
      (hBytes.trans hBytes'.symm)
  rw [hSame]

theorem step_ofText
    (text : List Char)
    (c : Char) :
    (ofText text).step c = ofText (text ++ [c]) := by
  unfold step ofText
  by_cases hFeed : c = '\n'
  · simp [hFeed, Nat.add_assoc]
  · have hCount : [c].count '\n' = 0 := by
      simp [hFeed]
    simp only [hFeed, if_false, List.count_append, hCount,
      List.reverse_append, List.reverse_singleton,
      List.singleton_append, List.takeWhile_cons]
    simp [hFeed, Nat.add_assoc]

/- Text without a line feed moves the column. -/
theorem ofText_append
    {text more : List Char}
    (hFeed : '\n' ∉ more) :
    ofText (text ++ more)
      = { ofText text with
          column := (ofText text).column + more.length } := by
  induction more using List.reverseRecOn with
  | nil => simp
  | append_singleton more c ih =>
      have hMore : '\n' ∉ more := by
        intro h
        exact hFeed (List.mem_append_left [c] h)
      have hOther : c ≠ '\n' := by
        rintro rfl
        exact hFeed (by simp)
      rw [← List.append_assoc, ← step_ofText, ih hMore, step,
        if_neg hOther]
      simp [Nat.add_assoc]

end Location

/- Reading a text leads to the location after it. -/
theorem Position.location_after
    (text : List Char) :
    (first.after text).location = Location.ofText text := by
  induction text using List.reverseRecOn with
  | nil => rfl
  | append_singleton text c ih =>
      rw [after_append, after_cons, after_nil, step, ih,
        Location.step_ofText]

------------------------------------------------------------
-- Bytes and Characters
------------------------------------------------------------

theorem utf8ByteSize_cons
    (c : Char)
    (text : List Char) :
    (String.ofList (c :: text)).utf8ByteSize
      = c.utf8Size + (String.ofList text).utf8ByteSize := by
  rw [← List.singleton_append, String.ofList_append,
    String.utf8ByteSize_append, ← String.singleton_eq_ofList,
    String.utf8ByteSize_singleton]

/- A text has at least as many bytes as characters. -/
theorem length_le_utf8ByteSize
    (text : List Char) :
    text.length ≤ (String.ofList text).utf8ByteSize := by
  induction text with
  | nil => exact Nat.zero_le _
  | cons c text ih =>
      have hPositive := c.utf8Size_pos
      rw [utf8ByteSize_cons, List.length_cons]
      omega

/- It has as many if each character takes one byte. -/
theorem utf8ByteSize_eq_length_iff
    {text : List Char} :
    (String.ofList text).utf8ByteSize = text.length
      ↔ ∀ c ∈ text, c.utf8Size = 1 := by
  induction text with
  | nil => simp
  | cons c text ih =>
      have hPositive := c.utf8Size_pos
      have hMore := length_le_utf8ByteSize text
      rw [List.forall_mem_cons, ← ih, utf8ByteSize_cons,
        List.length_cons]
      omega

/-
  A location that is moved by the bytes of a slice is that of
  the end of the slice if and only if this is one line of
  characters of one byte.
-/
theorem Location.marks_moved_iff
    {source : String}
    {before slice after : List Char}
    (hText : source.toList = before ++ (slice ++ after)) :
    Marks
        { ofText before with
          column :=
            (ofText before).column
              + (String.ofList slice).utf8ByteSize }
        source (String.ofList (before ++ slice)).utf8ByteSize
      ↔ ∀ c ∈ slice, c.utf8Size = 1 ∧ c ≠ '\n' := by
  have hEnd :
      (ofText (before ++ slice)).Marks source
        (String.ofList (before ++ slice)).utf8ByteSize :=
    ⟨before ++ slice, after, by simp [hText], rfl, rfl⟩
  constructor
  · intro hMarks
    have hSame := hMarks.unique hEnd
    have hFeed : '\n' ∉ slice := by
      have hLine := congrArg Location.line hSame
      simp only [ofText, List.count_append] at hLine
      exact List.count_eq_zero.mp (by omega)
    rw [ofText_append hFeed, Location.mk.injEq,
      Nat.add_left_cancel_iff] at hSame
    have hOne := utf8ByteSize_eq_length_iff.mp hSame.2
    intro c hc
    refine ⟨hOne c hc, ?_⟩
    rintro rfl
    exact hFeed hc
  · intro hAll
    have hFeed : '\n' ∉ slice := fun h => (hAll _ h).2 rfl
    have hBytes :=
      utf8ByteSize_eq_length_iff.mpr fun c hc => (hAll c hc).1
    rw [hBytes, ← ofText_append hFeed]
    exact hEnd

------------------------------------------------------------
-- Places in a Text
------------------------------------------------------------

/-
  A range and a location that belong to characters of a text
  which begins at a position.
-/
def Occupies
    (s : Span)
    (l : Location)
    (p : Position)
    (text : List Char) : Prop :=
  ∃ before slice after,
    text = before ++ (slice ++ after)
      ∧ slice ≠ []
      ∧ s = (p.after before).spanTo (p.after (before ++ slice))
      ∧ l = (p.after before).location

/- What stands in a text stands in a longer one. -/
theorem Occupies.later
    {s : Span}
    {l : Location}
    {p : Position}
    {text : List Char}
    (front : List Char)
    (hOccupies : Occupies s l (p.after front) text) :
    Occupies s l p (front ++ text) := by
  rcases hOccupies with
    ⟨before, slice, after, rfl, hSome, rfl, rfl⟩
  refine ⟨front ++ before, slice, after, by simp, hSome, ?_, ?_⟩
  · simp only [List.append_assoc, Position.after_append]
  · rw [Position.after_append]

/- A diagnostic that is about characters of a text. -/
def Diagnostic.Concerns
    (d : Diagnostic)
    (p : Position)
    (text : List Char) : Prop :=
  ∃ s l,
    d.span = some s ∧ d.location = some l ∧ Occupies s l p text

theorem Diagnostic.Concerns.later
    {d : Diagnostic}
    {p : Position}
    {text : List Char}
    (front : List Char)
    (hConcerns : d.Concerns (p.after front) text) :
    d.Concerns p (front ++ text) := by
  rcases hConcerns with ⟨s, l, hSpan, hLocation, hOccupies⟩
  exact ⟨s, l, hSpan, hLocation, hOccupies.later front⟩

/-
  Tokens and problems are in the places that they have, and
  these follow from the characters before them alone.
-/
theorem Tiling.occupies
    {p : Position}
    {text : List Char}
    {ts : List Token}
    {ds : List Diagnostic}
    (hTiling : Tiling p text ts ds) :
    (∀ t ∈ ts, Occupies t.span t.location p text)
      ∧ ∀ d ∈ ds, d.Concerns p text := by
  induction hTiling with
  | done => simp
  | @openComment p gap body _ _ =>
      refine ⟨by simp, ?_⟩
      intro d hd
      rw [List.mem_singleton.mp hd]
      refine ⟨_, _, rfl, rfl, gap, '/' :: '*' :: body, [], ?_⟩
      simp [Position.after_append]
  | @openString p gap body text _ _ =>
      have hPlace :
          Occupies
            ((p.after gap).spanTo
              ((p.after gap).after ('"' :: body)))
            (p.after gap).location p (gap ++ '"' :: body) := by
        refine ⟨gap, '"' :: body, [], ?_⟩
        simp [Position.after_append]
      constructor
      · intro t ht
        rw [List.mem_singleton.mp ht]
        exact hPlace
      · intro d hd
        rw [List.mem_singleton.mp hd]
        exact ⟨_, _, rfl, rfl, hPlace⟩
  | @token p gap source rest x ts ds _ hWrites _ ih =>
      rw [← Position.after_append] at ih
      rw [← List.append_assoc]
      constructor
      · intro t ht
        rcases List.mem_cons.mp ht with rfl | ht
        · refine ⟨gap, source, rest, List.append_assoc _ _ _,
            hWrites.source_ne_nil, ?_, rfl⟩
          rw [Position.after_append]
          rfl
        · exact (ih.1 t ht).later _
      · intro d hd
        exact (ih.2 d hd).later _

------------------------------------------------------------
-- Whole Texts
------------------------------------------------------------

namespace Occupies

variable {s : Span}
variable {l : Location}
variable {source : String}

/- Characters take bytes of the text. -/
theorem bounds
    (hOccupies : Occupies s l .first source.toList) :
    s.start < s.stop ∧ s.stop ≤ source.utf8ByteSize := by
  rcases hOccupies with
    ⟨before, slice, after, hText, hSome, rfl, -⟩
  rw [Position.after_append]
  refine ⟨Position.offset_lt_after _ hSome, ?_⟩
  have hWhole :=
    (Position.first.after (before ++ slice)).offset_le_after after
  rw [← Position.after_append, List.append_assoc, ← hText,
    Position.offset_first_after source.toList,
    String.ofList_toList, Position.after_append] at hWhole
  exact hWhole

/- They begin and end at characters. -/
theorem isValid
    (hOccupies : Occupies s l .first source.toList) :
    String.Pos.Raw.IsValid source ⟨s.start⟩
      ∧ String.Pos.Raw.IsValid source ⟨s.stop⟩ := by
  rcases hOccupies with ⟨before, slice, after, hText, -, rfl, -⟩
  simp only [Position.spanTo, Position.offset_first_after,
    String.Pos.Raw.isValid_iff_exists_append]
  constructor
  · refine ⟨String.ofList before, String.ofList (slice ++ after),
      ?_, rfl⟩
    rw [← String.toList_inj, hText]
    simp
  · refine ⟨String.ofList (before ++ slice), String.ofList after,
      ?_, rfl⟩
    rw [← String.toList_inj, hText]
    simp

/- They are located where they begin. -/
theorem marks
    (hOccupies : Occupies s l .first source.toList) :
    l.Marks source s.start := by
  rcases hOccupies with
    ⟨before, slice, after, hText, -, rfl, rfl⟩
  exact ⟨before, slice ++ after, hText,
    (Position.offset_first_after before).symm,
    Position.location_after before⟩

/- No column is further on than the bytes before it. -/
theorem column_le
    (hOccupies : Occupies s l .first source.toList) :
    l.column ≤ s.start + 1 := by
  rcases hOccupies.marks with ⟨before, after, -, hBytes, rfl⟩
  have hLine :
      (before.reverse.takeWhile (· != '\n')).length
        ≤ before.length := by
    have hAll :=
      (List.takeWhile_sublist (l := before.reverse)
        (· != '\n')).length_le
    rwa [List.length_reverse] at hAll
  have hLength := length_le_utf8ByteSize before
  rw [hBytes] at hLength
  simp only [Location.ofText]
  omega

/- Unless a text is too long, there is a column behind them. -/
theorem fits
    (hOccupies : Occupies s l .first source.toList)
    (hSize : source.utf8ByteSize + 1 < Location.columnLimit) :
    l.fits s.length = true := by
  have hColumn := hOccupies.column_le
  rcases hOccupies.bounds with ⟨hSome, hStop⟩
  rw [Location.fits, decide_eq_true_eq, Span.length]
  omega

/-
  The location of their end, if it is counted in bytes, is
  right for one line of characters of one byte, and for no
  others.
-/
theorem marks_stop_iff
    (hOccupies : Occupies s l .first source.toList) :
    ∃ slice,
      s.Covers source slice
        ∧ (Location.Marks
              { l with column := l.column + s.length }
              source s.stop
            ↔ ∀ c ∈ slice.toList, c.utf8Size = 1 ∧ c ≠ '\n') := by
  rcases hOccupies with
    ⟨before, slice, after, hText, -, rfl, rfl⟩
  have hBytes :
      ((Position.first.after before).spanTo
          (Position.first.after (before ++ slice))).length
        = (String.ofList slice).utf8ByteSize := by
    rw [Span.length, Position.spanTo, Position.after_append,
      (Position.first.after before).offset_after slice]
    exact Nat.add_sub_cancel_left _ _
  refine ⟨String.ofList slice,
    ⟨String.ofList before, String.ofList after, ?_, ?_, ?_⟩, ?_⟩
  · rw [← String.toList_inj, hText]
    simp
  · exact Position.offset_first_after before
  · rw [← String.ofList_append]
    exact Position.offset_first_after (before ++ slice)
  · rw [hBytes, Position.location_after, String.toList_ofList]
    simp only [Position.spanTo, Position.offset_first_after]
    exact Location.marks_moved_iff hText

end Occupies

theorem occupies_of_token
    {source : String}
    {t : Token}
    (ht : t ∈ (tokenize source).1) :
    Occupies t.span t.location .first source.toList :=
  (tiling_tokenize source).occupies.1 t ht

theorem concerns_of_problem
    {source : String}
    {d : Diagnostic}
    (hd : d ∈ (tokenize source).2) :
    d.Concerns .first source.toList :=
  (tiling_tokenize source).occupies.2 d hd

/-
  Every token begins and ends at a character of the text, and
  is located at the line and the column of the first of its
  characters.
-/
theorem tokenize_located
    (source : String) :
    ∀ t ∈ (tokenize source).1,
      String.Pos.Raw.IsValid source ⟨t.span.start⟩
        ∧ String.Pos.Raw.IsValid source ⟨t.span.stop⟩
        ∧ t.location.Marks source t.span.start := by
  intro t ht
  have hOccupies := occupies_of_token ht
  rcases hOccupies.isValid with ⟨hStart, hStop⟩
  exact ⟨hStart, hStop, hOccupies.marks⟩

/- A word behind a comment and a string of two lines each. -/
theorem tokenize_located_word :
    let source := "/*é\n*/ \"a\nb\" ½x"
    let t : Token :=
      { kind := .ident,
        text := "½x",
        span := { start := 14, stop := 17 },
        location := { line := 3, column := 4 } }
    t ∈ (tokenize source).1
      ∧ String.Pos.Raw.IsValid source ⟨t.span.start⟩
      ∧ String.Pos.Raw.IsValid source ⟨t.span.stop⟩
      ∧ t.location.Marks source t.span.start := by
  intro source t
  have ht : t ∈ (tokenize source).1 := by
    decide +kernel
  exact ⟨ht, tokenize_located source t ht⟩

end BlockScript
