import BlockScript.Proofs.Locations
import BlockScript.Proofs.Operations
import BlockScript.Proofs.Origins
import BlockScript.Proofs.Positions

/-
  This file shows where the diagnostics of a script point: to
  a token or a problem with the text, with the line and the
  column of its first character, or to the end of the last
  token. There the column is counted in bytes and the line is
  that of the start of the token.

  Key definitions include:
    * `Diagnostic.IsLocated`
    * `Diagnostic.Follows`
    * `Diagnostic.Placed`

  Key theorems include:
    * `Cursor.Proceeds.placed`
    * `Script.placed_of_ofCursor`
    * `Script.parse_places`
    * `Script.parse_checked`
-/

namespace BlockScript

------------------------------------------------------------
-- Diagnostics in Their Places
------------------------------------------------------------

namespace Diagnostic

/- A diagnostic that is located where its range starts. -/
def IsLocated
    (d : Diagnostic)
    (source : String) : Prop :=
  ∃ s l,
    d.span = some s
      ∧ d.location = some l
      ∧ l.Marks source s.start

/-
  A diagnostic at the end of a token: behind it, as many
  columns on as the token has bytes.
-/
structure Follows
    (d : Diagnostic)
    (t : Token) : Prop where
  span :
    d.span = some { start := t.span.stop, stop := t.span.stop }
  location :
    d.location = some (t.location.advance t.span.length)

/-
  A diagnostic about some tokens and the problems with their
  text: one of the problems, at a token, or at the end of the
  last of them.
-/
inductive Placed
    (tokens : List Token)
    (problems : List Diagnostic)
    (d : Diagnostic) : Prop where
  | problem (hProblem : d ∈ problems)
  | token
      {t : Token}
      (x : Diagnostic)
      (hToken : t ∈ tokens)
      (hPlace : d = x.place t.span t.location)
  | ended
      (x : Diagnostic)
      (hPlace : d = x.placeAfterAll tokens)

theorem follows_placeAfterAll
    {tokens : List Token}
    {t : Token}
    (x : Diagnostic)
    (hLast : tokens.getLast? = some t) :
    (x.placeAfterAll tokens).Follows t := by
  unfold placeAfterAll
  rw [hLast]
  exact ⟨rfl, rfl⟩

/- What concerns characters is located at the first of them. -/
theorem Concerns.isLocated
    {d : Diagnostic}
    {source : String}
    (hConcerns : d.Concerns .first source.toList) :
    d.IsLocated source := by
  rcases hConcerns with ⟨s, l, hSpan, hLocation, hOccupies⟩
  exact ⟨s, l, hSpan, hLocation, hOccupies.marks⟩

/-
  What follows a token is located there if the token is one
  line of characters of one byte.
-/
theorem Follows.isLocated_iff
    {d : Diagnostic}
    {t : Token}
    {source : String}
    (hFollows : d.Follows t)
    (hToken : t ∈ (tokenize source).1) :
    ∃ slice,
      t.span.Covers source slice
        ∧ (source.utf8ByteSize + 1 < Location.columnLimit →
            (d.IsLocated source
              ↔ ∀ c ∈ slice.toList,
                  c.utf8Size = 1 ∧ c ≠ '\n')) := by
  have hOccupies := occupies_of_token hToken
  rcases hOccupies.marks_stop_iff with ⟨slice, hCovers, hMarks⟩
  refine ⟨slice, hCovers, ?_⟩
  intro hSize
  rw [← hMarks,
    ← Location.advance_of_fits (hOccupies.fits hSize)]
  constructor
  · rintro ⟨s, l, hSpan, hLocation, hThere⟩
    rw [hFollows.span, Option.some.injEq] at hSpan
    rw [hFollows.location, Option.some.injEq] at hLocation
    rwa [← hSpan, ← hLocation] at hThere
  · intro hThere
    exact ⟨_, _, hFollows.span, hFollows.location, hThere⟩

end Diagnostic

------------------------------------------------------------
-- Reports on the Way
------------------------------------------------------------

namespace Cursor

/- A token that is next is among those that were to come. -/
theorem Reaches.mem_of_next
    {c d : Cursor}
    {t : Token}
    (hReaches : c.Reaches d)
    (hNext : d.next.1 = some t) :
    t ∈ c.tokens := by
  rw [next_fst] at hNext
  exact hReaches.tokens_suffix.mem (List.mem_of_mem_head? hNext)

/- All that is found on the way is in its place. -/
theorem Proceeds.placed
    {c d : Cursor}
    (hFresh : Run.Fresh c)
    (hProceeds : c.Proceeds d) :
    ∀ x ∈ d.found, x.Placed c.tokens c.source.problems := by
  induction hProceeds with
  | refl =>
      intro x hx
      rw [found, hFresh.diagnostics, Array.toList_empty,
        List.nil_append] at hx
      exact .problem hx
  | peek _ ih =>
      rw [found_peek]
      exact ih
  | next _ ih =>
      rw [found_next]
      exact ih
  | @reportNext d t y hProceeds hPeeked ih =>
      have hToken : t ∈ c.tokens :=
        hProceeds.reaches.mem_of_next (next_of_peeked hPeeked)
      intro x hx
      rcases mem_found_report.mp hx with hx | hx
      · exact ih x hx
      · exact .token y hToken hx
  | @reportTaken d e t y hProceeds hNext ih =>
      have hToken : t ∈ c.tokens :=
        hProceeds.reaches.mem_of_next (congrArg Prod.fst hNext)
      intro x hx
      rcases mem_found_report.mp hx with hx | hx
      · rw [← d.found_next, hNext] at ih
        exact ih x hx
      · exact .token y hToken hx
  | @reportEnd d y hProceeds hEnd ih =>
      have hLast := hProceeds.reaches.lastOf hFresh.last hEnd
      intro x hx
      rw [reportAtEnd_eq_placeAfterAll y hLast] at hx
      rcases mem_found_report.mp hx with hx | hx
      · exact ih x hx
      · exact .ended y hx

end Cursor

------------------------------------------------------------
-- Scripts
------------------------------------------------------------

namespace Script

/- What is reported about a script was found on the way. -/
theorem placed_of_ofCursor
    {r : Registry}
    {c : Cursor}
    {d : Diagnostic}
    (hPlain : r.Plain)
    (hFresh : Cursor.Run.Fresh c)
    (hd : d ∈ (ofCursor r c).diagnostics) :
    d.Placed c.tokens c.source.problems := by
  have hProceeds := Registry.proceeds_readItems hPlain [] c
  apply hProceeds.placed hFresh
  rw [← Cursor.finish_append]
  exact List.mem_append_left _ hd

/- About a script without tokens only problems are reported. -/
theorem problem_of_ofCursor
    {r : Registry}
    {c : Cursor}
    {d : Diagnostic}
    (hFresh : Cursor.Run.Fresh c)
    (hNone : c.tokens = [])
    (hd : d ∈ (ofCursor r c).diagnostics) :
    d ∈ c.source.problems := by
  have hNext := Cursor.next_of_tokens_nil hNone
  unfold ofCursor at hd
  rw [r.readItems_of_none [] hNext] at hd
  have hFound : d ∈ c.peek.2.found := by
    rw [← Cursor.finish_append]
    exact List.mem_append_left _ hd
  rw [Cursor.found_peek, Cursor.found,
    hFresh.diagnostics] at hFound
  exact hFound

/-
  Every diagnostic has a range and a location. It is about
  characters of the script, and located at the first of them,
  or it follows the last token, and is located there only if
  this token is one line of characters of one byte. There is
  a column for its end in any script held in memory.
-/
theorem parse_places
    {r : Registry}
    (source : String)
    (hPlain : r.Plain) :
    ∀ d ∈ (parse r source).diagnostics,
      (d.Concerns .first source.toList ∧ d.IsLocated source)
        ∨ ∃ t slice,
            (tokenize source).1.getLast? = some t
              ∧ d.Follows t
              ∧ t.span.Covers source slice
              ∧ (source.utf8ByteSize + 1 < Location.columnLimit →
                  (d.IsLocated source
                    ↔ ∀ c ∈ slice.toList,
                        c.utf8Size = 1 ∧ c ≠ '\n')) := by
  intro d hd
  have hFresh : Cursor.Run.Fresh (.ofSource source) :=
    ⟨rfl, rfl, rfl, rfl⟩
  have hConcerned :
      d.Concerns .first source.toList →
        d.Concerns .first source.toList ∧ d.IsLocated source :=
    fun hConcerns => ⟨hConcerns, hConcerns.isLocated⟩
  rcases hLast : (tokenize source).1.getLast? with _ | t
  · have hNone := List.getLast?_eq_none_iff.mp hLast
    have hProblem := problem_of_ofCursor hFresh hNone hd
    exact .inl (hConcerned (concerns_of_problem hProblem))
  · cases placed_of_ofCursor hPlain hFresh hd with
    | problem hProblem =>
        exact .inl (hConcerned (concerns_of_problem hProblem))
    | token x hToken hPlace =>
        rw [hPlace]
        have hOccupies := occupies_of_token hToken
        exact .inl ⟨⟨_, _, rfl, rfl, hOccupies⟩,
          _, _, rfl, rfl, hOccupies.marks⟩
    | ended x hPlace =>
        have hFollows := Diagnostic.follows_placeAfterAll x hLast
        rw [show x.placeAfterAll (tokenize source).1 = d from
          hPlace.symm] at hFollows
        rcases hFollows.isLocated_iff (List.mem_of_getLast? hLast)
          with ⟨slice, hCovers, hLocated⟩
        exact .inr
          ⟨t, slice, rfl, hFollows, hCovers, hLocated⟩

/- An unknown keyword, and a block that ends with its name. -/
theorem parse_places_standard :
    let source := "? tech a"
    Registry.standard.Plain
      ∧ (parse .standard source).diagnostics.map
            (fun d => (d.span, d.location))
          = [(some ⟨0, 1⟩, some ⟨1, 1⟩),
              (some ⟨8, 8⟩, some ⟨1, 9⟩)]
      ∧ ∀ d ∈ (parse .standard source).diagnostics,
          (d.Concerns .first source.toList ∧ d.IsLocated source)
            ∨ ∃ t slice,
                (tokenize source).1.getLast? = some t
                  ∧ d.Follows t
                  ∧ t.span.Covers source slice
                  ∧ (d.IsLocated source
                    ↔ ∀ c ∈ slice.toList,
                        c.utf8Size = 1 ∧ c ≠ '\n') := by
  intro source
  refine ⟨by decide, by decide +kernel, ?_⟩
  intro d hd
  rcases parse_places source (by decide) d hd with
    hHere | ⟨t, slice, hLast, hFollows, hCovers, hLocated⟩
  · exact .inl hHere
  · exact .inr
      ⟨t, slice, hLast, hFollows, hCovers, hLocated (by decide)⟩

/-
  Checks of sums make no difference to any script held in
  memory.
-/
theorem parse_checked
    {r : Registry}
    {source : String}
    (hPlain : r.Plain)
    (hSize : source.utf8ByteSize + 1 < Location.columnLimit) :
    ofCursorChecked r (.ofSource source)
      = some (parse r source) := by
  apply ofCursorChecked_of_fits hPlain ⟨rfl, rfl⟩ rfl
  intro t ht
  have hToken : t ∈ (tokenize source).1 :=
    List.mem_of_getLast? (Option.mem_def.mp ht)
  exact (occupies_of_token hToken).fits hSize

/-
  The only diagnostic of a script is at its end, and is not
  located there.
-/
theorem not_isLocated_at_end
    {source : String}
    {ds : List Diagnostic}
    {l : Location}
    (hPlaces :
      ds.map (fun d => (d.span, d.location))
        = [(some ⟨source.utf8ByteSize, source.utf8ByteSize⟩,
            some l)])
    (hOther : l ≠ Location.ofText source.toList) :
    ¬ ∀ d ∈ ds, d.IsLocated source := by
  intro hAll
  rcases List.map_eq_singleton_iff.mp hPlaces with
    ⟨d, rfl, hPlace⟩
  rw [Prod.mk.injEq] at hPlace
  rcases hAll d (List.mem_singleton_self d) with
    ⟨s, l', hSpan, hLocation, hMarks⟩
  rw [hPlace.1, Option.some.injEq] at hSpan
  rw [hPlace.2, Option.some.injEq] at hLocation
  rw [← hSpan, ← hLocation] at hMarks
  have hEnd :
      (Location.ofText source.toList).Marks source
        source.utf8ByteSize :=
    ⟨source.toList, [], by simp, by simp, rfl⟩
  exact hOther (hMarks.unique hEnd)

/-
  After a character of two bytes the column is one too many,
  and after two lines the line is that of the first.
-/
theorem parse_misplaced :
    ¬ (∀ d ∈ (parse .standard "tech é").diagnostics,
        d.IsLocated "tech é")
      ∧ ¬ ∀ d ∈ (parse .standard "tech \"a\nb\"").diagnostics,
          d.IsLocated "tech \"a\nb\"" := by
  constructor
  · have hPlaces :
        (parse .standard "tech é").diagnostics.map
            (fun d => (d.span, d.location))
          = [(some ⟨7, 7⟩, some ⟨1, 8⟩)] := by
      decide +kernel
    exact not_isLocated_at_end hPlaces (by decide)
  · have hPlaces :
        (parse .standard "tech \"a\nb\"").diagnostics.map
            (fun d => (d.span, d.location))
          = [(some ⟨10, 10⟩, some ⟨1, 11⟩)] := by
      decide +kernel
    exact not_isLocated_at_end hPlaces (by decide)

end Script
end BlockScript
