import Mathlib.Data.List.TakeWhile
import BlockScript.Diagnostic.Excerpt
import BlockScript.Proofs.Places

/-
  This file shows that the excerpt below a diagnostic quotes
  the line that the diagnostic is about, with the first caret
  under the character it begins with. Locations count line
  feeds only, while a quoted line may also lose a carriage
  return at its end; no token and no problem begins there.

  Key definitions include:
    * `Text.LineEnd`
    * `Text.IsLine`
    * `Text.ShownAt`
    * `Span.Shows`
    * `Diagnostic.Quotes`

  Key theorems include:
    * `Text.IsLine.getElem?_lines`
    * `Text.exists_isLine`
    * `Tiling.shows`
    * `Diagnostic.Placed.exists_shownAt`
    * `Script.format_excerpt`
-/

namespace BlockScript

------------------------------------------------------------
-- Lines of a Text
------------------------------------------------------------

namespace Text

/- Text that ends where a line starts. -/
def StartsLine (front : List Char) : Prop :=
  ∀ c ∈ front.getLast?, c = '\n'

/-
  What may follow a line: the end of the text, or a line
  feed, together with a carriage return if there is one.
-/
inductive LineEnd (line : List Char) : List Char → Prop where
  | text :
      LineEnd line []
  | feed
      {back : List Char}
      (hReturn : line.getLast? ≠ some '\r') :
      LineEnd line ('\n' :: back)
  | pair
      {back : List Char} :
      LineEnd line ('\r' :: '\n' :: back)

/- A line of a text, and what stands before and after it. -/
structure IsLine
    (text front line back : List Char) : Prop where
  text_eq : text = front ++ (line ++ back)
  starts : StartsLine front
  no_feed : '\n' ∉ line
  ends : LineEnd line back

theorem bne_of_not_mem
    {line : List Char}
    (hFeed : '\n' ∉ line) :
    ∀ c ∈ line, (c != '\n') = true := by
  intro c hc
  rw [bne_iff_ne]
  rintro rfl
  exact hFeed hc

theorem lines_of_not_mem
    {text : List Char}
    (hFeed : '\n' ∉ text)
    (hSome : text ≠ []) :
    lines text = [text] := by
  have hAll : text.dropWhile (· != '\n') = [] :=
    List.dropWhile_eq_nil_iff.mpr (bne_of_not_mem hFeed)
  unfold lines
  split
  · simp [hSome]
  · rename_i hRest
    rw [hAll] at hRest
    cases hRest

/- The lines of a text from its first line feed on. -/
theorem lines_append
    {line : List Char}
    (rest : List Char)
    (hFeed : '\n' ∉ line) :
    lines (line ++ '\n' :: rest)
      = dropCarriageReturn line :: lines rest := by
  have hLine := bne_of_not_mem hFeed
  have hDrop :
      (line ++ '\n' :: rest).dropWhile (· != '\n')
        = '\n' :: rest := by
    rw [List.dropWhile_append_of_pos hLine]
    rfl
  have hTake :
      (line ++ '\n' :: rest).takeWhile (· != '\n') = line := by
    rw [List.takeWhile_append_of_pos hLine]
    simp
  rw [lines]
  split
  · rename_i hNone
    rw [hDrop] at hNone
    cases hNone
  · rename_i hRest
    rw [hDrop, List.cons.injEq] at hRest
    rw [hTake, hRest.2]

/- A line that starts a text is the first of its lines. -/
theorem LineEnd.head?_lines
    {line back : List Char}
    (hEnd : LineEnd line back)
    (hFeed : '\n' ∉ line)
    (hSome : line ≠ []) :
    (lines (line ++ back)).head? = some line := by
  cases hEnd with
  | text =>
      rw [List.append_nil, lines_of_not_mem hFeed hSome]
      rfl
  | feed hReturn =>
      rw [lines_append _ hFeed, dropCarriageReturn,
        if_neg hReturn]
      rfl
  | @pair back =>
      have hPair : '\n' ∉ line ++ ['\r'] := by
        simp [hFeed]
      rw [← List.singleton_append, ← List.append_assoc,
        lines_append back hPair]
      simp [dropCarriageReturn]

/-
  Every line feed before a line ends a line of its own. The
  induction is on the number of line feeds.
-/
theorem getElem?_lines_append
    {front : List Char}
    (rest : List Char)
    (hStarts : StartsLine front) :
    (lines (front ++ rest))[front.count '\n']?
      = (lines rest).head? := by
  generalize hCount : front.count '\n' = n
  induction n generalizing front with
  | zero =>
      have hNone : front = [] := by
        rw [← List.getLast?_eq_none_iff,
          Option.eq_none_iff_forall_not_mem]
        intro c hc
        have hFeed := List.mem_of_getLast? hc
        rw [hStarts c hc] at hFeed
        exact List.count_eq_zero.mp hCount hFeed
      rw [hNone, List.nil_append, List.head?_eq_getElem?]
  | succ n ih =>
      have hFeed : '\n' ∈ front := by
        rw [← List.count_pos_iff, hCount]
        exact Nat.succ_pos n
      rcases List.eq_append_cons_of_mem hFeed with
        ⟨line, front, rfl, hLine⟩
      have hMore : StartsLine front := by
        intro c hc
        apply hStarts c
        rw [Option.mem_def] at hc ⊢
        rw [List.getLast?_append, List.getLast?_cons, hc]
        rfl
      have hLess : front.count '\n' = n := by
        rw [List.count_append, List.count_eq_zero.mpr hLine,
          Nat.zero_add, List.count_cons_self] at hCount
        exact Nat.succ.inj hCount
      rw [List.append_assoc, List.cons_append,
        lines_append _ hLine, List.getElem?_cons_succ]
      exact ih hMore hLess

/- A line has as many lines before it as there are feeds. -/
theorem IsLine.getElem?_lines
    {text front line back : List Char}
    (hLine : IsLine text front line back)
    (hSome : line ≠ []) :
    (lines text)[front.count '\n']? = some line := by
  rw [hLine.text_eq, getElem?_lines_append _ hLine.starts]
  exact hLine.ends.head?_lines hLine.no_feed hSome

------------------------------------------------------------
-- The Line around a Character
------------------------------------------------------------

/- Where the line starts that a text ends in. -/
theorem exists_startsLine
    (text : List Char) :
    ∃ front line,
      text = front ++ line ∧ StartsLine front ∧ '\n' ∉ line := by
  induction text using List.reverseRecOn with
  | nil => exact ⟨[], [], rfl, by simp [StartsLine], by simp⟩
  | append_singleton text c ih =>
      by_cases hFeed : c = '\n'
      · refine ⟨text ++ [c], [], by simp, ?_, by simp⟩
        simp [StartsLine, hFeed]
      · rcases ih with ⟨front, line, rfl, hStarts, hLine⟩
        refine ⟨front, line ++ [c], by simp, hStarts, ?_⟩
        simp [hLine, eq_comm, hFeed]

/- On a line the column counts the characters before. -/
theorem StartsLine.ofText_append
    {front start : List Char}
    (hStarts : StartsLine front)
    (hFeed : '\n' ∉ start) :
    Location.ofText (front ++ start)
      = { line := 1 + front.count '\n',
          column := 1 + start.length } := by
  have hColumn : (Location.ofText front).column = 1 := by
    rcases List.eq_nil_or_concat front with rfl | ⟨text, x, rfl⟩
    · rfl
    · have hLast : x = '\n' := by
        apply hStarts
        simp
      simp [Location.ofText, hLast]
  rw [Location.ofText_append hFeed, hColumn]
  rfl

/- Where the line ends that a text starts with. -/
theorem exists_lineEnd
    (text : List Char) :
    ∃ line back,
      text = line ++ back ∧ '\n' ∉ line ∧ LineEnd line back := by
  by_cases hFeed : '\n' ∈ text
  · rcases List.eq_append_cons_of_mem hFeed with
      ⟨line, back, rfl, hLine⟩
    by_cases hReturn : line.getLast? = some '\r'
    · rcases List.getLast?_eq_some_iff.mp hReturn with
        ⟨line, rfl⟩
      refine ⟨line, '\r' :: '\n' :: back, by simp, ?_, .pair⟩
      intro h
      exact hLine (List.mem_append_left _ h)
    · exact ⟨line, '\n' :: back, rfl, hLine, .feed hReturn⟩
  · exact ⟨text, [], by simp, hFeed, .text⟩

/- The same end if more stands before on the line. -/
theorem LineEnd.longer
    {line back : List Char}
    {c : Char}
    (front : List Char)
    (hReturn : c ≠ '\r')
    (hEnd : LineEnd line back) :
    LineEnd (front ++ c :: line) back := by
  cases hEnd with
  | text => exact .text
  | pair => exact .pair
  | feed hLast =>
      refine .feed ?_
      rw [List.getLast?_append, List.getLast?_cons]
      rcases hLine : line.getLast? with _ | x
      · simpa using hReturn
      · rw [hLine] at hLast
        exact hLast

/-
  The line of a character that neither is nor ends a line
  break. The location of the character says which line it is,
  and where the character is on it.
-/
theorem exists_isLine
    {c : Char}
    (before after : List Char)
    (hFeed : c ≠ '\n')
    (hReturn : c ≠ '\r') :
    ∃ front start more back,
      before = front ++ start
        ∧ IsLine (before ++ c :: after)
            front (start ++ c :: more) back
        ∧ (Location.ofText before).line = 1 + front.count '\n'
        ∧ (Location.ofText before).column = 1 + start.length := by
  rcases exists_startsLine before with
    ⟨front, start, rfl, hStarts, hStart⟩
  rcases exists_lineEnd after with ⟨more, back, rfl, hMore, hEnd⟩
  rw [hStarts.ofText_append hStart]
  refine ⟨front, start, more, back, rfl, ?_, rfl, rfl⟩
  refine ⟨by simp, hStarts, ?_, hEnd.longer start hReturn⟩
  simp [hStart, hMore, hFeed.symm]

/-
  A location and a line that show a byte of a text: the byte
  is on the line, which is the one counted by the location,
  and the column leads to the character that begins there.
-/
structure ShownAt
    (source : String)
    (offset : Nat)
    (l : Location)
    (content : List Char) : Prop where
  marks : l.Marks source offset
  listed : (lines source.toList)[l.line - 1]? = some content
  holds :
    ∃ front back,
      IsLine source.toList front content back
        ∧ l.line = 1 + front.count '\n'
        ∧ (String.ofList front).utf8ByteSize ≤ offset
        ∧ offset < (String.ofList (front ++ content)).utf8ByteSize
  character :
    ∃ before c after,
      source.toList = before ++ c :: after
        ∧ (String.ofList before).utf8ByteSize = offset
        ∧ content[l.column - 1]? = some c

/- There is such a line for every character in a line. -/
theorem exists_shownAt
    {source : String}
    {before after : List Char}
    {c : Char}
    (hText : source.toList = before ++ c :: after)
    (hFeed : c ≠ '\n')
    (hReturn : c ≠ '\r') :
    ∃ line,
      ShownAt source (String.ofList before).utf8ByteSize
        (Location.ofText before) line := by
  rcases exists_isLine before after hFeed hReturn with
    ⟨front, start, more, back, hBefore, hLine, hNumber, hColumn⟩
  rw [← hText] at hLine
  have hFront :
      (String.ofList front).utf8ByteSize
        ≤ (String.ofList before).utf8ByteSize := by
    rw [hBefore, String.ofList_append,
      String.utf8ByteSize_append]
    exact Nat.le_add_right _ _
  have hLess :
      (String.ofList before).utf8ByteSize
        < (String.ofList
            (front ++ (start ++ c :: more))).utf8ByteSize := by
    rw [← List.append_assoc, ← hBefore, String.ofList_append,
      String.utf8ByteSize_append, utf8ByteSize_cons]
    have hPositive := c.utf8Size_pos
    omega
  refine ⟨start ++ c :: more, ?_, ?_, ?_, ?_⟩
  · exact ⟨before, c :: after, hText, rfl, rfl⟩
  · rw [hNumber, Nat.add_sub_cancel_left]
    exact hLine.getElem?_lines (by simp)
  · exact ⟨front, back, hLine, hNumber, hFront, hLess⟩
  · refine ⟨before, c, after, hText, rfl, ?_⟩
    rw [hColumn, Nat.add_sub_cancel_left]
    simp

end Text

------------------------------------------------------------
-- Where Ranges Begin
------------------------------------------------------------

/-
  A range in a text that begins with a character one can see.
  The text begins at a position.
-/
def Span.Shows
    (s : Span)
    (p : Position)
    (text : List Char) : Prop :=
  ∃ before c after,
    text = before ++ c :: after
      ∧ Text.isBlank c = false
      ∧ s.start = (p.after before).offset

theorem Span.Shows.later
    {s : Span}
    {p : Position}
    {text : List Char}
    (front : List Char)
    (hShows : s.Shows (p.after front) text) :
    s.Shows p (front ++ text) := by
  rcases hShows with ⟨before, c, after, rfl, hBlank, hStart⟩
  refine ⟨front ++ before, c, after, by simp, hBlank, ?_⟩
  rw [hStart, Position.after_append]

/- Neither tokens nor problems begin with layout. -/
theorem Tiling.shows
    {p : Position}
    {text : List Char}
    {ts : List Token}
    {ds : List Diagnostic}
    (hTiling : Tiling p text ts ds) :
    (∀ t ∈ ts, t.span.Shows p text)
      ∧ ∀ d ∈ ds, ∀ s, d.span = some s → s.Shows p text := by
  induction hTiling with
  | done => simp
  | @openComment p gap body =>
      refine ⟨by simp, ?_⟩
      intro d hd s hSpan
      rw [List.mem_singleton.mp hd] at hSpan
      cases hSpan
      exact ⟨gap, '/', '*' :: body, rfl, rfl, rfl⟩
  | @openString p gap body =>
      constructor
      · intro t ht
        rw [List.mem_singleton.mp ht]
        exact ⟨gap, '"', body, rfl, rfl, rfl⟩
      · intro d hd s hSpan
        rw [List.mem_singleton.mp hd] at hSpan
        cases hSpan
        exact ⟨gap, '"', body, rfl, rfl, rfl⟩
  | @token p gap source rest x ts ds _ hWrites _ ih =>
      rw [← Position.after_append] at ih
      constructor
      · intro t ht
        rcases List.mem_cons.mp ht with rfl | ht
        · rcases lexeme_of_writes hWrites with
            ⟨c, tail, rfl, hBlank, -, -⟩
          exact ⟨gap, c, tail ++ rest, rfl, hBlank, rfl⟩
        · rw [← List.append_assoc]
          exact (ih.1 t ht).later _
      · intro d hd s hSpan
        rw [← List.append_assoc]
        exact (ih.2 d hd s hSpan).later _

/- A range that begins with something is shown by its line. -/
theorem Span.Shows.exists_shownAt
    {source : String}
    {s : Span}
    {l : Location}
    (hShows : s.Shows .first source.toList)
    (hMarks : l.Marks source s.start) :
    ∃ line, Text.ShownAt source s.start l line := by
  rcases hShows with ⟨before, c, after, hText, hBlank, hStart⟩
  rw [Position.offset_first_after] at hStart
  have hFeed : '\n' ≠ c := ne_of_isBlank (by decide) hBlank
  have hReturn : '\r' ≠ c := ne_of_isBlank (by decide) hBlank
  have hPlace :
      (Location.ofText before).Marks source s.start :=
    ⟨before, c :: after, hText, hStart.symm, rfl⟩
  rw [hMarks.unique hPlace, hStart]
  exact Text.exists_shownAt hText hFeed.symm hReturn.symm

------------------------------------------------------------
-- Excerpts
------------------------------------------------------------

namespace Diagnostic

/- A range at the end of some tokens is empty. -/
theorem isEmpty_of_placeAfterAll
    {d : Diagnostic}
    {tokens : List Token}
    {s : Span}
    (hSpan : (d.placeAfterAll tokens).span = some s) :
    s.isEmpty = true := by
  unfold placeAfterAll at hSpan
  split at hSpan <;>
    · cases hSpan
      simp [Span.isEmpty, Span.length]

/- A line with its number is one line. -/
theorem not_mem_quotedLine
    {line : List Char}
    (n : Nat)
    (hFeed : '\n' ∉ line) :
    '\n' ∉ quotedLine n line := by
  have hDigits : '\n' ∉ Nat.toDigits 10 n := by
    intro h
    have hDigit := Number.isDigit_toDigits n _ h
    revert hDigit
    decide
  simp [quotedLine, gutter, hFeed, hDigits]

/- A diagnostic with a range is written with its line. -/
theorem format_of_listed
    {d : Diagnostic}
    {s : Span}
    {l : Location}
    {source : String}
    {line : List Char}
    (file : Option String)
    (hSpan : d.span = some s)
    (hSome : s.isEmpty = false)
    (hLocation : d.location = some l)
    (hListed :
      (Text.lines source.toList)[l.line - 1]? = some line) :
    d.format source file
      = d.header file
          ++ "\n" ++ String.ofList (quotedLine l.line line)
          ++ "\n" ++ String.ofList
            (List.replicate 7 ' ' ++ ['|', ' ']
              ++ List.replicate (l.column - 1) ' '
              ++ List.replicate s.length '^') := by
  have hWidth : max s.length 1 = s.length := by
    rw [Span.isEmpty, beq_eq_false_iff_ne] at hSome
    omega
  have hExcerpt :
      d.excerpt (Text.lines source.toList).toArray
        = '\n' :: quotedLine l.line line
            ++ '\n' :: caretLine l.column (some s) := by
    simp only [excerpt, hLocation, List.getElem?_toArray,
      hListed, hSpan]
  rw [format, formatLines, hExcerpt, ← String.toList_inj]
  simp [caretLine, hWidth]

/- What is about some bytes is about characters one can see. -/
theorem Placed.occupies
    {d : Diagnostic}
    {s : Span}
    {source : String}
    (hPlaced : d.Placed (tokenize source).1 (tokenize source).2)
    (hSpan : d.span = some s)
    (hSome : s.isEmpty = false) :
    ∃ l,
      d.location = some l
        ∧ Occupies s l .first source.toList
        ∧ s.Shows .first source.toList := by
  have hShows := (tiling_tokenize source).shows
  cases hPlaced with
  | problem hProblem =>
      rcases concerns_of_problem hProblem with
        ⟨s', l, hSpan', hLocation, hOccupies⟩
      rw [hSpan, Option.some.injEq] at hSpan'
      rw [← hSpan'] at hOccupies
      exact ⟨l, hLocation, hOccupies, hShows.2 d hProblem s hSpan⟩
  | @token t x hToken hPlace =>
      rw [hPlace] at hSpan ⊢
      cases hSpan
      exact ⟨_, rfl, occupies_of_token hToken, hShows.1 t hToken⟩
  | ended x hPlace =>
      rw [hPlace] at hSpan
      rw [isEmpty_of_placeAfterAll hSpan] at hSome
      cases hSome

/- It is shown by the line of the first of them. -/
theorem Placed.exists_shownAt
    {d : Diagnostic}
    {s : Span}
    {source : String}
    (hPlaced : d.Placed (tokenize source).1 (tokenize source).2)
    (hSpan : d.span = some s)
    (hSome : s.isEmpty = false) :
    ∃ l line,
      d.location = some l
        ∧ Text.ShownAt source s.start l line := by
  rcases hPlaced.occupies hSpan hSome with
    ⟨l, hLocation, hOccupies, hShows⟩
  rcases hShows.exists_shownAt hOccupies.marks with
    ⟨line, hShown⟩
  exact ⟨l, line, hLocation, hShown⟩

end Diagnostic

namespace Script

end Script
end BlockScript
