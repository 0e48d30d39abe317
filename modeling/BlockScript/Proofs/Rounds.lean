import BlockScript.Body.Steps
import BlockScript.Proofs.Dispatch
import BlockScript.Proofs.Reporting

/-
  This file takes the reading of a script apart into rounds.
  A round takes one token and reads the item that begins with
  it. Bodies may be read in any way here: they may stop early
  or read on into what follows their block.

  Key definitions include:
    * `Round`
    * `Registry.rounds`
    * `Registry.bodyReading?`
    * `Round.EndsTruly`

  Key theorems include:
    * `Registry.readItems_eq_rounds`
    * `Registry.rounds_invariant`
    * `Registry.atTop_readItem`
    * `Registry.rounds_at_top`
-/

namespace BlockScript

------------------------------------------------------------
-- Rounds
------------------------------------------------------------

/-
  One round of the reading of a script: the cursor before it,
  the token that it takes first, the block that it reads, if
  any, and the cursor after it.
-/
structure Round where
  head : Cursor
  token : Token
  block : Option Block
  after : Cursor

namespace Registry

/- The rounds in which a script is read, up to its end. -/
def rounds
    (r : Registry)
    (c : Cursor) : List Round :=
  match _ : c.next with
  | (none, _) => []
  | (some t, d) =>
      let item := r.readItem t d
      { head := c, token := t, block := item.1, after := item.2 }
        :: r.rounds item.2
termination_by c.size
decreasing_by
  rename_i hNext
  have hLt := Cursor.size_next_lt (c := c) (by simp [hNext])
  have hLe := (reaches_readItem r t d).size_le
  rw [hNext] at hLt
  exact Nat.lt_of_le_of_lt hLe hLt

theorem rounds_of_none
    {c d : Cursor}
    (r : Registry)
    (hNext : c.next = (none, d)) :
    r.rounds c = [] := by
  rw [rounds]
  split <;> simp_all

theorem rounds_of_some
    {c d : Cursor}
    {t : Token}
    (r : Registry)
    (hNext : c.next = (some t, d)) :
    r.rounds c
      = { head := c,
          token := t,
          block := (r.readItem t d).1,
          after := (r.readItem t d).2 }
        :: r.rounds (r.readItem t d).2 := by
  rw [rounds]
  split <;> simp_all

/- The blocks of a script are those that its rounds read. -/
theorem readItems_eq_rounds
    (r : Registry)
    (blocks : List Block)
    (c : Cursor) :
    (r.readItems blocks c).1
      = blocks.reverse ++ (r.rounds c).filterMap Round.block := by
  fun_induction readItems r blocks c with
  | case1 blocks c d hNext =>
      rw [rounds_of_none r hNext]
      simp
  | case2 blocks c t d hNext item ih =>
      rw [ih, rounds_of_some r hNext]
      cases item.1 <;> simp [item]

/-
  What holds at the start and after every round that it held
  before holds before and after all rounds.
-/
theorem rounds_invariant
    {r : Registry}
    {c : Cursor}
    {P : Cursor → Prop}
    (hStart : P c)
    (hRound :
      ∀ (d e : Cursor) (t : Token),
        P d → d.next = (some t, e) → P (r.readItem t e).2) :
    ∀ x ∈ r.rounds c, P x.head ∧ P x.after := by
  fun_induction rounds r c with
  | case1 c d hNext => simp
  | case2 c t d hNext item ih =>
      have hAfter := hRound c d t hStart hNext
      intro x hx
      rcases List.mem_cons.mp hx with rfl | hx
      · exact ⟨hStart, hAfter⟩
      · exact ih hAfter x hx

end Registry

/- A round reads the item that begins with its token. -/
theorem Round.readItem_eq
    {r : Registry}
    {c : Cursor}
    {x : Round}
    (hx : x ∈ r.rounds c) :
    ∃ d,
      x.head.next = (some x.token, d)
        ∧ r.readItem x.token d = (x.block, x.after) := by
  fun_induction Registry.rounds r c with
  | case1 c d hNext => simp at hx
  | case2 c t d hNext item ih =>
      rcases List.mem_cons.mp hx with rfl | hx
      · exact ⟨d, hNext, rfl⟩
      · exact ih hx

------------------------------------------------------------
-- Progress
------------------------------------------------------------

namespace Registry

/- All rounds stand somewhere on the way. -/
theorem reaches_of_mem_rounds
    {r : Registry}
    {c : Cursor}
    {x : Round}
    (hx : x ∈ r.rounds c) :
    c.Reaches x.head := by
  refine (rounds_invariant (P := c.Reaches) .refl ?_ x hx).1
  intro d e t hReaches hNext
  have hTaken := hReaches.next
  rw [hNext] at hTaken
  exact hTaken.trans (reaches_readItem r t e)

/- Every round takes a token, so there are no more of them. -/
theorem length_rounds_le
    (r : Registry)
    (c : Cursor) :
    (r.rounds c).length ≤ c.tokens.length := by
  fun_induction rounds r c with
  | case1 c d hNext => exact Nat.zero_le _
  | case2 c t d hNext item ih =>
      have hTokens : d.tokens = c.tokens.tail := by
        rw [← c.tokens_next, hNext]
      have hSome : c.tokens.head? = some t := by
        rw [← c.next_fst, hNext]
      obtain ⟨taken, reported, hTakes⟩ :
          ∃ taken reported, d.Takes taken reported item.2 :=
        (reaches_readItem r t d).takes
      have hLength := congrArg List.length hTakes.tokens
      rw [hTokens, List.length_tail, List.length_append]
        at hLength
      have hPositive : 0 < c.tokens.length :=
        List.length_pos_of_mem (List.mem_of_mem_head? hSome)
      simp only [List.length_cons]
      omega

/- The rounds end when no token is left. -/
theorem tokens_readItems
    (r : Registry)
    (blocks : List Block)
    (c : Cursor) :
    (r.readItems blocks c).2.tokens = [] := by
  obtain ⟨d, -, hNext⟩ := r.readItems_ended blocks c
  exact (Cursor.ended_of_next hNext).tokens

end Registry

------------------------------------------------------------
-- Back to the Top
------------------------------------------------------------

/- After a skip to the top nothing is open. -/
theorem Cursor.atTop_skipToClose
    (c : Cursor) :
    (c.skipToClose 1).2.AtTop := by
  rcases hSkip : c.skipToClose 1 with ⟨_ | _, d⟩
  · intro hSome
    exact absurd (ended_of_skipToClose hSkip).tokens hSome
  · have hClosed := closed_of_skipToClose hSkip
    intro _
    simp only
    omega

/- A block that is skipped to its end leaves nothing open. -/
theorem Header.atTop_close
    (h : Header)
    (o : Outcome)
    (c : Cursor) :
    (match c.skipToClose 1 with
      | (true, d) => (h.close o d, d)
      | (false, d) => h.closeAtEnd d).2.AtTop := by
  have hTop := c.atTop_skipToClose
  rcases hSkip : c.skipToClose 1 with ⟨_ | _, d⟩ <;>
    rw [hSkip] at hTop <;> exact hTop

/-
  However a body at the top is read, its block leaves nothing
  open, unless the body says that input has ended while it
  has not.
-/
theorem Header.atTop_readBlock
    {body : Body}
    {c : Cursor}
    (h : Header)
    (hDepth : c.depth = 1)
    (hEnds :
      ∀ d,
        body.read h c = (.error .unexpectedEof, d) →
          d.tokens = []) :
    (h.readBlock body c).2.AtTop := by
  unfold readBlock
  rw [hDepth]
  rcases hRead : body.read h c with
    ⟨(⟨cause, blamed⟩ | _) | fields, d⟩
  · exact atTop_close _ .failed _
  · intro hSome
    exact absurd (hEnds d hRead) hSome
  · exact atTop_close _ (.parsed fields) d

namespace Registry

/-
  What is read as a body after the keyword `t`, if a body is
  read there.
-/
def bodyReading?
    (r : Registry)
    (t : Token)
    (c : Cursor) : Option (Reading (List Field)) :=
  if t.kind = .ident then
    match r.lookup t.text with
    | none => none
    | some kind =>
        let (name, d) := readNamed kind t.text c
        match d.eat .lBrace with
        | (none, _) => none
        | (some _, e) =>
            some (kind.body.read (headerAt t name e) e)
  else
    none

/-
  One round leads from the top back to the top. The induction
  over all rounds rests on this, whatever bodies do.
-/
theorem atTop_readItem
    {r : Registry}
    {c : Cursor}
    {t : Token}
    (hDepth : c.depth = Cursor.depthAfter 0 t.kind)
    (hLast : c.LastIs t)
    (hEnds :
      ∀ d,
        r.bodyReading? t c = some (.error .unexpectedEof, d) →
          d.tokens = []) :
    (r.readItem t c).2.AtTop := by
  unfold readItem
  by_cases hKind : t.kind = .ident
  · rw [if_pos hKind]
    have hTop : c.AtTop := by
      intro _
      rw [hDepth, hKind]
      rfl
    rcases hLookup : r.lookup t.text with _ | kind
    · have hReport :=
        c.takes_reportAt (.ofProblem (.unknownKeyword t.text)) t
      obtain ⟨name, braces, -, -, -, -, hEnd⟩ :=
        takes_passUnknown r (hTop.of_takes hReport (by simp))
          (hReport.lastIs hLast)
      exact hEnd
    · obtain ⟨name, d, hRead, -, hTakes, hMore⟩ :=
        takes_readNamed kind hTop hLast
      simp only [bodyReading?, if_pos hKind, hLookup, hRead]
        at hEnds
      simp only [readKind_eq, hRead, readBraced]
      rcases Cursor.takes_eat hMore with
        ⟨l, e, hEat, -, -, hOne⟩ | ⟨e, hEat, -, -, hAfter, hPeek⟩
      · simp only [hEat, Option.some.injEq] at hEnds ⊢
        exact Header.atTop_readBlock _ hOne hEnds
      · simp only [hEat, hPeek]
        rcases e.tokens.head? with _ | s <;> exact hAfter
  · rw [if_neg hKind]
    obtain ⟨run, braces, taken, -, -, -, hEnd⟩ :=
      takes_passStrayFrom r hDepth hLast hKind
    exact hEnd

end Registry

/-
  If the body that a round reads says that input has ended,
  then input has ended.
-/
def Round.EndsTruly
    (r : Registry)
    (x : Round) : Prop :=
  ∀ d,
    r.bodyReading? x.token x.head.next.2
        = some (.error .unexpectedEof, d) →
      d.tokens = []

/- It is enough that no body ever says so too early. -/
theorem Round.endsTruly_of_bodies
    {r : Registry}
    (x : Round)
    (hBodies :
      ∀ kind ∈ r.table.kinds,
        ∀ (h : Header) (c d : Cursor),
          kind.body.read h c = (.error .unexpectedEof, d) →
            d.tokens = []) :
    x.EndsTruly r := by
  intro d hReading
  unfold Registry.bodyReading? at hReading
  split at hReading
  · split at hReading
    · simp at hReading
    · rename_i kind hLookup
      have hKind := KindTable.mem_kinds_of_get? hLookup
      simp only at hReading
      split at hReading
      · simp at hReading
      · exact hBodies kind hKind _ _ d
          (Option.some.inj hReading)
  · simp at hReading

namespace Registry

/-
  All rounds begin at the top. The induction is on the rounds
  still to come.
-/
theorem rounds_at_top
    {r : Registry}
    {c : Cursor}
    (hTop : c.AtTop)
    (hEnds : ∀ x ∈ r.rounds c, x.EndsTruly r) :
    ∀ x ∈ r.rounds c, x.head.depth = 0 := by
  fun_induction rounds r c with
  | case1 c d hNext => simp
  | case2 c t d hNext item ih =>
      obtain ⟨hTokens, hDepth, hLast⟩ := hTop.next hNext
      have hFirst := hEnds _ List.mem_cons_self
      simp only [Round.EndsTruly, hNext] at hFirst
      have hAfter : item.2.AtTop :=
        atTop_readItem hDepth hLast hFirst
      intro x hx
      rcases List.mem_cons.mp hx with rfl | hx
      · exact hTop (by simp [hTokens])
      · refine ih hAfter ?_ x hx
        intro y hy
        exact hEnds y (List.mem_cons_of_mem _ hy)

/-
  The token of a round is one of the tokens, and the nesting
  before the round is that of the tokens in front of it.
-/
theorem split_of_mem_rounds
    {r : Registry}
    {c : Cursor}
    {x : Round}
    (hx : x ∈ r.rounds c) :
    ∃ front back,
      c.tokens = front ++ x.token :: back
        ∧ x.head.depth
            = front.foldl
                (fun d t => Cursor.depthAfter d t.kind)
                c.depth := by
  obtain ⟨front, reported, hTakes⟩ :=
    (reaches_of_mem_rounds hx).takes
  obtain ⟨d, hNext, -⟩ := Round.readItem_eq hx
  have hHead : x.head.tokens.head? = some x.token := by
    rw [← Cursor.next_fst, hNext]
  obtain ⟨back, hBack⟩ := List.head?_eq_some_iff.mp hHead
  refine ⟨front, back, ?_, hTakes.depth⟩
  rw [hTakes.tokens, hBack]

end Registry

------------------------------------------------------------
-- Whole Runs
------------------------------------------------------------

/- Steps that accept what they take never fail. -/
theorem Steps.read_accept
    {steps : Steps}
    (hEnding : steps.ending = .accept)
    (fields : List Field)
    (last : Option Token)
    (c : Cursor)
    (n : Nat) :
    ∃ all, (steps.read fields last c n).1 = .ok all := by
  have hEnd :
      steps.conclude fields.reverse last
        = .ok fields.reverse := by
    rw [conclude, hEnding]
  induction n generalizing fields last c with
  | zero => exact ⟨_, hEnd⟩
  | succ n ih =>
      unfold read
      split
      · exact ⟨_, hEnd⟩
      · exact ih _ _ _ (by rw [conclude, hEnding])

namespace Registry

/-
  Whatever its bodies do, a registry reads a script to its
  end, in no more rounds than there are tokens. As long as no
  body says that input has ended while it has not, nothing is
  open where a round begins, so that every keyword of a block
  stands outside of all braces.
-/
theorem rounds_progress
    (r : Registry)
    (s : TokenSource) :
    (r.readItems [] { source := s }).2.tokens = []
      ∧ (r.readItems [] { source := s }).1
          = (r.rounds { source := s }).filterMap Round.block
      ∧ (r.rounds { source := s }).length ≤ s.tokens.length
      ∧ ((∀ x ∈ r.rounds { source := s }, x.EndsTruly r) →
          ∀ x ∈ r.rounds { source := s },
            x.head.depth = 0
              ∧ ∃ front back,
                  s.tokens = front ++ x.token :: back
                    ∧ front.foldl
                        (fun d t => Cursor.depthAfter d t.kind)
                        0
                      = 0) := by
  refine ⟨tokens_readItems r [] _, readItems_eq_rounds r [] _,
    length_rounds_le r _, ?_⟩
  intro hEnds x hx
  have hDepth : x.head.depth = 0 :=
    rounds_at_top (fun _ => rfl) hEnds x hx
  obtain ⟨front, back, hTokens, hFront⟩ := split_of_mem_rounds hx
  exact ⟨hDepth, front, back, hTokens, hFront.symm.trans hDepth⟩

/- Blocks that take three tokens, wherever these lead. -/
def triples : Registry :=
  Registry.empty.add
    { keyword := "triple",
      named := false,
      body :=
        .custom
          (Steps.grammar
            { count := 3,
              records := false,
              ending := .accept }) }

/- A body that reads on into the block after it. -/
theorem rounds_progress_triples :
    let s : TokenSource :=
      .listed
        (tokenize "triple \x7b \x7d triple \x7b a \x7d b").1
    (triples.rounds { source := s }).map (·.token.text)
        = ["triple", "b"]
      ∧ (∀ x ∈ triples.rounds { source := s },
          x.EndsTruly triples)
      ∧ ∀ x ∈ triples.rounds { source := s },
          x.head.depth = 0 := by
  intro s
  have hEnds :
      ∀ x ∈ triples.rounds { source := s },
        x.EndsTruly triples := by
    intro x _
    apply x.endsTruly_of_bodies
    intro kind hKind h c d hRead
    obtain rfl := List.mem_singleton.mp hKind
    let steps : Steps :=
      { count := 3, records := false, ending := .accept }
    have hAccepts : steps.ending = .accept := rfl
    obtain ⟨fields, hFields⟩ :=
      steps.read_accept hAccepts [] none c 3
    have hFirst := congrArg Prod.fst hRead
    exact absurd (hFields.symm.trans hFirst) (by simp)
  refine ⟨by decide +kernel, hEnds, ?_⟩
  intro x hx
  exact ((rounds_progress triples s).2.2.2 hEnds x hx).1

end Registry
end BlockScript
