import Mathlib.Data.List.Basic
import Mathlib.Data.Nat.Digits.Defs
import BlockScript.Proofs.Excerpts
import BlockScript.Proofs.Prelexed

/-
  This file compares the carets below an excerpt with the text
  that they are meant to underline. There is one for each byte
  of this text, and the space to the left of them is that of a
  line number of four digits.

  Key definitions include:
    * `Span.OnLine`
    * `Diagnostic.Draws`
    * `Diagnostic.Underlines`
    * `Diagnostic.CaretsBelow`

  Key theorems include:
    * `Span.OnLine.split`
    * `Diagnostic.draws_of_onLine`
    * `Diagnostic.Draws.unique`
    * `Diagnostic.Draws.underlines_iff`
    * `Script.format_carets`
    * `Script.underlines_after_feeds_iff`
-/

namespace BlockScript

------------------------------------------------------------
-- Ranges on One Line
------------------------------------------------------------

/- Of two texts that begin alike, one goes on like the other. -/
theorem prefix_of_utf8ByteSize_le
    {a b x y : List Char}
    (hText : a ++ x = b ++ y)
    (hBytes :
      (String.ofList a).utf8ByteSize
        ≤ (String.ofList b).utf8ByteSize) :
    ∃ more, b = a ++ more := by
  rcases List.append_eq_append_iff.mp hText with
    ⟨more, rfl, -⟩ | ⟨more, rfl, -⟩
  · exact ⟨more, rfl⟩
  · have hLength := length_le_utf8ByteSize more
    rw [String.ofList_append, String.utf8ByteSize_append]
      at hBytes
    have hNone : more = [] :=
      List.length_eq_zero_iff.mp (by omega)
    exact ⟨[], by simp [hNone]⟩

/- A range of bytes that does not leave a line of a text. -/
structure Span.OnLine
    (s : Span)
    (source : String)
    (front line back : List Char) : Prop where
  isLine : Text.IsLine source.toList front line back
  start : (String.ofList front).utf8ByteSize ≤ s.start
  stop : s.stop ≤ (String.ofList (front ++ line)).utf8ByteSize

/- Characters on a line divide it, and are located on it. -/
theorem Span.OnLine.split
    {s : Span}
    {l : Location}
    {source : String}
    {front line back : List Char}
    (hOnLine : s.OnLine source front line back)
    (hOccupies : Occupies s l .first source.toList) :
    ∃ start slice more,
      line = start ++ (slice ++ more)
        ∧ slice ≠ []
        ∧ s.start = (String.ofList (front ++ start)).utf8ByteSize
        ∧ s.stop
            = (String.ofList
                (front ++ (start ++ slice))).utf8ByteSize
        ∧ l = { line := 1 + front.count '\n',
                column := 1 + start.length } := by
  rcases hOccupies with
    ⟨before, slice, after, hText, hSome, rfl, rfl⟩
  rcases hOnLine with ⟨hLine, hStart, hStop⟩
  simp only [Position.spanTo, Position.offset_first_after]
    at hStart hStop ⊢
  have hFront := hLine.text_eq
  rw [hText] at hFront
  rcases prefix_of_utf8ByteSize_le hFront.symm hStart with
    ⟨start, rfl⟩
  rw [← List.append_assoc, ← List.append_assoc front] at hFront
  rcases prefix_of_utf8ByteSize_le hFront hStop with
    ⟨more, hMore⟩
  simp only [List.append_assoc, List.append_cancel_left_eq]
    at hMore
  have hFeed : '\n' ∉ start := by
    intro h
    apply hLine.no_feed
    rw [hMore]
    exact List.mem_append_left _ h
  refine ⟨start, slice, more, hMore, hSome, rfl, ?_, ?_⟩
  · rw [List.append_assoc]
  · rw [Position.location_after,
      hLine.starts.ofText_append hFeed]

------------------------------------------------------------
-- Lines with Carets
------------------------------------------------------------

namespace Diagnostic

/-
  A diagnostic is written in three parts: its header, a line
  that has a slice of the script between `upper` and `more`,
  and a line that has some carets behind `lower`.
-/
structure Draws
    (d : Diagnostic)
    (source : String)
    (file : Option String)
    (upper slice more lower : List Char)
    (carets : Nat) : Prop where
  format_eq :
    d.format source file
      = d.header file
          ++ "\n" ++ String.ofList (upper ++ (slice ++ more))
          ++ "\n" ++ String.ofList
            (lower ++ List.replicate carets '^')
  upper_line : '\n' ∉ upper ++ (slice ++ more)
  lower_line : '\n' ∉ lower ++ List.replicate carets '^'
  no_caret : '^' ∉ lower

/-
  The carets underline a slice. There is one for each of its
  characters, and the first stands below the first of these.
-/
def Underlines
    (d : Diagnostic)
    (source : String)
    (file : Option String)
    (slice more : List Char) : Prop :=
  ∃ upper lower,
    d.Draws source file upper slice more lower slice.length
      ∧ lower.length = upper.length

namespace Draws

variable {d : Diagnostic}
variable {source : String}
variable {file : Option String}
variable {upper slice more lower : List Char}
variable {carets : Nat}

/- What a diagnostic is written as says where its carets are. -/
theorem unique
    {upper' lower' : List Char}
    {carets' : Nat}
    (hDraws : d.Draws source file upper slice more lower carets)
    (hOther :
      d.Draws source file upper' slice more lower' carets') :
    upper = upper' ∧ lower = lower' ∧ carets = carets' := by
  have hSame := hDraws.format_eq.symm.trans hOther.format_eq
  rw [← String.toList_inj] at hSame
  have hLines :
      (upper ++ (slice ++ more))
          ++ '\n' :: (lower ++ List.replicate carets '^')
        = (upper' ++ (slice ++ more))
          ++ '\n' :: (lower' ++ List.replicate carets' '^') := by
    simpa using hSame
  rcases
    (List.append_cons_inj_of_notMem hDraws.upper_line
      hDraws.lower_line).mp hLines with ⟨hUpper, -, hLower⟩
  -- No other character of the last line is a caret.
  have hCarets : carets = carets' := by
    have hCount := congrArg (List.count '^') hLower
    simpa [List.count_append,
      List.count_eq_zero.mpr hDraws.no_caret,
      List.count_eq_zero.mpr hOther.no_caret] using hCount
  rw [hCarets] at hLower
  exact ⟨List.append_cancel_right hUpper,
    List.append_cancel_right hLower, hCarets⟩

/- So the carets of a diagnostic underline a slice or do not. -/
theorem underlines_iff
    (hDraws : d.Draws source file upper slice more lower carets) :
    d.Underlines source file slice more
      ↔ carets = slice.length ∧ lower.length = upper.length := by
  constructor
  · rintro ⟨upper', lower', hOther, hUnder⟩
    rcases hDraws.unique hOther with ⟨rfl, rfl, rfl⟩
    exact ⟨rfl, hUnder⟩
  · rintro ⟨rfl, hUnder⟩
    exact ⟨upper, lower, hDraws, hUnder⟩

end Draws

------------------------------------------------------------
-- Carets below a Range
------------------------------------------------------------

/- What the excerpt has in front of the first caret. -/
def indent (columns : Nat) : List Char :=
  List.replicate 7 ' ' ++ ['|', ' ']
    ++ List.replicate columns ' '

/- A line number of up to four digits takes as much space. -/
theorem length_indent_iff
    {number : Nat}
    (start : List Char) :
    (indent start.length).length
        = (quotedLine number start).length
      ↔ number < 10000 := by
  have hDigits :=
    Nat.length_toDigits_le_iff (b := 10) (n := number) (k := 4)
      (by decide) (by decide)
  rw [show (10000 : Nat) = 10 ^ 4 from rfl, ← hDigits]
  simp only [indent, quotedLine, gutter, List.length_append,
    List.length_replicate, List.length_cons, List.length_nil]
  omega

/- There are as many carets as bytes below a range on a line. -/
theorem draws_of_onLine
    {d : Diagnostic}
    {s : Span}
    {source : String}
    {front start slice more back : List Char}
    (file : Option String)
    (hLine :
      Text.IsLine source.toList front
        (start ++ (slice ++ more)) back)
    (hSlice : slice ≠ [])
    (hSpan : d.span = some s)
    (hSome : s.isEmpty = false)
    (hLocation :
      d.location
        = some { line := 1 + front.count '\n',
                 column := 1 + start.length }) :
    d.Draws source file
      (quotedLine (1 + front.count '\n') start) slice more
      (indent start.length) s.length where
  format_eq := by
    have hListed := hLine.getElem?_lines (by simp [hSlice])
    rw [← Nat.add_sub_cancel_left 1 (front.count '\n')] at hListed
    rw [format_of_listed file hSpan hSome hLocation hListed]
    simp [indent, quotedLine]
  upper_line := by
    have hQuoted :=
      not_mem_quotedLine (1 + front.count '\n') hLine.no_feed
    simpa [quotedLine] using hQuoted
  lower_line := by simp [indent]
  no_caret := by simp [indent]

/-
  The carets below a range on a line begin in the column of
  its first character, and there are as many as it has bytes.
  So they underline the range if all its characters take one
  byte and the number of the line has up to four digits, and
  in no other case.
-/
def CaretsBelow
    (d : Diagnostic)
    (s : Span)
    (source : String)
    (file : Option String)
    (front line : List Char) : Prop :=
  ∃ start slice more,
    line = start ++ (slice ++ more)
      ∧ s.start = (String.ofList (front ++ start)).utf8ByteSize
      ∧ s.stop
          = (String.ofList
              (front ++ (start ++ slice))).utf8ByteSize
      ∧ d.Draws source file
          (quotedLine (1 + front.count '\n') start) slice more
          (indent start.length) s.length
      ∧ (d.Underlines source file slice more
        ↔ (∀ c ∈ slice, c.utf8Size = 1)
          ∧ 1 + front.count '\n' < 10000)

theorem caretsBelow_of_onLine
    {d : Diagnostic}
    {s : Span}
    {l : Location}
    {source : String}
    {front line back : List Char}
    (file : Option String)
    (hSpan : d.span = some s)
    (hSome : s.isEmpty = false)
    (hLocation : d.location = some l)
    (hOccupies : Occupies s l .first source.toList)
    (hOnLine : s.OnLine source front line back) :
    d.CaretsBelow s source file front line := by
  rcases hOnLine.split hOccupies with
    ⟨start, slice, more, rfl, hSlice, hStart, hStop, rfl⟩
  have hDraws :=
    draws_of_onLine file hOnLine.isLine hSlice hSpan hSome
      hLocation
  have hBytes :
      s.length = (String.ofList slice).utf8ByteSize := by
    rw [Span.length, hStart, hStop, ← List.append_assoc,
      String.ofList_append, String.utf8ByteSize_append]
    exact Nat.add_sub_cancel_left _ _
  refine ⟨start, slice, more, rfl, hStart, hStop, hDraws, ?_⟩
  rw [hDraws.underlines_iff, hBytes, utf8ByteSize_eq_length_iff,
    length_indent_iff]

end Diagnostic

namespace Script

/-
  Below every diagnostic with some bytes on one line there are
  carets, in the column of the first of these, and as many of
  them as there are bytes.
-/
theorem format_carets
    {r : Registry}
    (source : String)
    (file : Option String)
    (hPlain : r.Plain) :
    ∀ d ∈ (parse r source).diagnostics,
      ∀ s front line back,
        d.span = some s →
          s.isEmpty = false →
            s.OnLine source front line back →
              d.CaretsBelow s source file front line := by
  intro d hd s front line back hSpan hSome hOnLine
  have hFresh : Cursor.Run.Fresh (.ofSource source) :=
    ⟨rfl, rfl, rfl, rfl⟩
  have hPlaced := placed_of_ofCursor hPlain hFresh hd
  rcases hPlaced.occupies hSpan hSome with
    ⟨l, hLocation, hOccupies, -⟩
  exact Diagnostic.caretsBelow_of_onLine file hSpan hSome
    hLocation hOccupies hOnLine

/- An unknown keyword on the second line. -/
theorem format_carets_keyword :
    let source := "\n rock ½"
    let s : Span := { start := 2, stop := 6 }
    let d : Diagnostic :=
      { kind := .unknownKeyword,
        message := "unknown block keyword 'rock'",
        span := some s,
        location := some { line := 2, column := 2 } }
    Registry.standard.Plain
      ∧ d ∈ (parse .standard source).diagnostics
      ∧ s.isEmpty = false
      ∧ s.OnLine source ['\n'] " rock ½".toList []
      ∧ d.CaretsBelow s source none ['\n'] " rock ½".toList := by
  intro source s d
  have hPlain : Registry.standard.Plain := by
    decide
  have hd : d ∈ (parse .standard source).diagnostics := by
    decide +kernel
  have hOnLine : s.OnLine source ['\n'] " rock ½".toList [] :=
    ⟨⟨by decide, by simp [Text.StartsLine], by decide, .text⟩,
      by decide, by decide⟩
  refine ⟨hPlain, hd, rfl, hOnLine, ?_⟩
  exact format_carets source none hPlain d hd s _ _ _ rfl rfl
    hOnLine

------------------------------------------------------------
-- Carets out of Place
------------------------------------------------------------

theorem utf8ByteSize_feeds
    (n : Nat) :
    (String.ofList (List.replicate n '\n')).utf8ByteSize = n := by
  have hOne : ∀ c ∈ List.replicate n '\n', c.utf8Size = 1 := by
    intro c hc
    rw [List.eq_of_mem_replicate hc]
    rfl
  rw [utf8ByteSize_eq_length_iff.mpr hOne, List.length_replicate]

theorem startsLine_feeds
    (n : Nat) :
    Text.StartsLine (List.replicate n '\n') := by
  intro c hc
  exact List.eq_of_mem_replicate (List.mem_of_getLast? hc)

theorem gap_feeds
    (n : Nat)
    (rest : List Char) :
    Gap (List.replicate n '\n') rest := by
  induction n with
  | zero => exact .nil
  | succ n ih => exact .piece (.blank (by decide)) ih

/- A comment is not closed that comes after `n` line feeds. -/
theorem problems_of_feeds
    (n : Nat) :
    ∃ d,
      (tokenize
          (String.ofList
            (List.replicate n '\n' ++ ['/', '*']))).2 = [d]
        ∧ d.span = some ⟨n, n + 2⟩
        ∧ d.location = some ⟨1 + n, 1⟩ := by
  have hTiling :=
    Tiling.openComment (p := .first) (gap_feeds n ['/', '*'])
      (by simp)
  have hProblems :=
    (hTiling.unique (l := .ofSource _) rfl String.toList_ofList
      rfl).2
  have hOffset :
      (Position.first.after (List.replicate n '\n')).offset = n := by
    rw [Position.offset_first_after, utf8ByteSize_feeds]
  have hLocation :
      (Position.first.after (List.replicate n '\n')).location
        = ⟨1 + n, 1⟩ := by
    have hStart :=
      (startsLine_feeds n).ofText_append List.not_mem_nil
    rw [List.append_nil, List.count_replicate_self] at hStart
    rw [Position.location_after, hStart]
    rfl
  have hStop :
      ((Position.first.after (List.replicate n '\n')).after
          ['/', '*']).offset = n + 2 := by
    rw [Position.offset_after, hOffset]
    rfl
  refine ⟨_, hProblems, ?_, congrArg some hLocation⟩
  rw [Problem.over, Diagnostic.place, Position.spanTo, hOffset,
    hStop]

/-
  What is reported about this comment is underlined if no more
  than 9998 lines come before it.
-/
theorem underlines_after_feeds_iff
    {r : Registry}
    (n : Nat)
    (hPlain : r.Plain) :
    let front := List.replicate n '\n'
    let source := String.ofList (front ++ ['/', '*'])
    ∃ d ∈ (parse r source).diagnostics,
      d.span = some ⟨n, n + 2⟩
        ∧ Span.OnLine ⟨n, n + 2⟩ source front ['/', '*'] []
        ∧ (d.Underlines source none ['/', '*'] [] ↔ n < 9999) := by
  intro front source
  rcases problems_of_feeds n with
    ⟨d, hProblems, hSpan, hLocation⟩
  have hd : d ∈ Diagnostics.lexical (parse r source).diagnostics := by
    rw [lexical_parse source hPlain, hProblems]
    exact List.mem_singleton_self d
  have hCount : front.count '\n' = n := List.count_replicate_self
  have hLine :
      Text.IsLine source.toList front ([] ++ (['/', '*'] ++ [])) [] :=
    ⟨String.toList_ofList, startsLine_feeds n, by decide, .text⟩
  have hDraws :=
    Diagnostic.draws_of_onLine none hLine (by simp) hSpan
      (by simp [Span.isEmpty, Span.length])
      (by rw [hCount, hLocation]; rfl)
  refine ⟨d, (List.mem_filter.mp hd).1, hSpan,
    ⟨hLine, ?_, ?_⟩, ?_⟩
  · exact Nat.le_of_eq (utf8ByteSize_feeds n)
  · rw [String.ofList_append, String.utf8ByteSize_append,
      utf8ByteSize_feeds]
    exact Nat.le_refl _
  · have hCarets :
        (⟨n, n + 2⟩ : Span).length = ['/', '*'].length :=
      Nat.add_sub_cancel_left n 2
    rw [hDraws.underlines_iff, Diagnostic.length_indent_iff, hCount,
      and_iff_right hCarets]
    omega

/-
  Two carets below the one character that an unknown keyword
  has, and carets that are a column to the left of a comment
  on line 10000.
-/
theorem format_misdrawn :
    ((parse .standard "é").diagnostics.map
            (fun d => (d.span, d.location))
          = [(some ⟨0, 2⟩, some ⟨1, 1⟩)]
        ∧ Span.OnLine ⟨0, 2⟩ "é" [] ['é'] []
        ∧ ¬ ∀ d ∈ (parse .standard "é").diagnostics,
            d.Underlines "é" none ['é'] [])
      ∧ let front := List.replicate 9999 '\n'
        let source := String.ofList (front ++ ['/', '*'])
        ∃ d ∈ (parse .standard source).diagnostics,
          d.span = some ⟨9999, 10001⟩
            ∧ Span.OnLine ⟨9999, 10001⟩ source front
                ['/', '*'] []
            ∧ ¬ d.Underlines source none ['/', '*'] [] := by
  constructor
  · have hPlaces :
        (parse .standard "é").diagnostics.map
            (fun d => (d.span, d.location))
          = [(some ⟨0, 2⟩, some ⟨1, 1⟩)] := by
      decide +kernel
    have hOnLine : Span.OnLine ⟨0, 2⟩ "é" [] ['é'] [] :=
      ⟨⟨by decide, by simp [Text.StartsLine], by decide, .text⟩,
        by decide, by decide⟩
    refine ⟨hPlaces, hOnLine, ?_⟩
    intro hAll
    rcases List.map_eq_singleton_iff.mp hPlaces with
      ⟨d, hOnly, hPlace⟩
    rw [Prod.mk.injEq] at hPlace
    have hLine :
        Text.IsLine "é".toList [] ([] ++ (['é'] ++ [])) [] :=
      hOnLine.isLine
    have hDraws :=
      Diagnostic.draws_of_onLine none hLine (by simp) hPlace.1
        rfl hPlace.2
    have hUnder := hAll d (by simp [hOnly])
    have hCarets := (hDraws.underlines_iff.mp hUnder).1
    exact absurd hCarets (by decide)
  · intro front source
    have hPlain : Registry.standard.Plain := by
      decide
    rcases underlines_after_feeds_iff 9999 hPlain with
      ⟨d, hd, hSpan, hOnLine, hUnder⟩
    refine ⟨d, hd, hSpan, hOnLine, ?_⟩
    rw [hUnder]
    exact Nat.lt_irrefl 9999

end Script
end BlockScript
