import BlockScript.Proofs.Tiling

/-
  This file makes any calls to a lexer, in any order. Its
  tokens come one after the other, their end is met for good,
  and the one problem that a text can have is handed over
  once.

  Key definitions include:
    * `Lexer.Call`
    * `Lexer.Run`
    * `Lexer.Run.Keeps`
    * `Diagnostic.EndsText`

  Key theorems include:
    * `Tiling.endsText`
    * `Lexer.Run.Keeps.step`
    * `Lexer.Run.after_of_ended`
    * `Lexer.Run.ends_once`
-/

namespace BlockScript

------------------------------------------------------------
-- The Problem with a Text
------------------------------------------------------------

/-
  A problem that goes up to the end of a text, at byte `stop`.
  A string that is not closed is the last token. A comment
  that is not closed comes after every token.
-/
inductive Diagnostic.EndsText
    (tokens : List Token)
    (stop : Nat)
    (d : Diagnostic) : Prop where
  | openString
      {t : Token}
      (hKind : d.kind = .unterminatedString)
      (hLast : tokens.getLast? = some t)
      (hSpan : d.span = some t.span)
      (hStop : t.span.stop = stop)
  | openComment
      {s : Span}
      (hKind : d.kind = .unterminatedComment)
      (hSpan : d.span = some s)
      (hAfter : ∀ t ∈ tokens, t.span.stop ≤ s.start)
      (hStop : s.stop = stop)

namespace Tiling

variable {p : Position}
variable {text : List Char}
variable {ts : List Token}
variable {ds : List Diagnostic}

/- Problems do not start before the text does. -/
theorem offset_le_problem
    (hTiling : Tiling p text ts ds) :
    ∀ d ∈ ds,
      ∀ s, d.span = some s → p.offset ≤ s.start := by
  induction hTiling with
  | done => simp
  | openComment =>
      intro d hd s hSpan
      rw [List.mem_singleton.mp hd] at hSpan
      rw [← Option.some.inj hSpan]
      exact Position.offset_le_after _ _
  | openString =>
      intro d hd s hSpan
      rw [List.mem_singleton.mp hd] at hSpan
      rw [← Option.some.inj hSpan]
      exact Position.offset_le_after _ _
  | token _ _ _ ih =>
      rename_i p gap source rest x ts ds _ _ _
      intro d hd s hSpan
      have hStart := ih d hd s hSpan
      rw [← Position.after_append] at hStart
      exact Nat.le_trans (p.offset_le_after _) hStart

/- The problem with a text goes up to the end of it. -/
theorem endsText
    (hTiling : Tiling p text ts ds) :
    ∀ d ∈ ds, d.EndsText ts (p.after text).offset := by
  induction hTiling with
  | done => simp
  | openComment =>
      intro d hd
      rw [List.mem_singleton.mp hd, Position.after_append]
      exact .openComment rfl rfl (by simp) rfl
  | openString =>
      intro d hd
      rw [List.mem_singleton.mp hd, Position.after_append]
      exact .openString rfl rfl rfl rfl
  | token _ _ hRest ih =>
      intro d hd
      rw [Position.after_append, Position.after_append]
      cases ih d hd with
      | openString hKind hLast hSpan hStop =>
          refine .openString hKind ?_ hSpan hStop
          rw [List.getLast?_cons, hLast]
          rfl
      | openComment hKind hSpan hAfter hStop =>
          refine .openComment hKind hSpan ?_ hStop
          intro t ht
          rcases List.mem_cons.mp ht with rfl | ht
          · exact hRest.offset_le_problem d hd _ hSpan
          · exact hAfter t ht

end Tiling

namespace Lexer

------------------------------------------------------------
-- Calls
------------------------------------------------------------

/-
  What a lexer can be asked, by itself and as a source of
  tokens.
-/
inductive Call where
  | next
  | nextToken
  | drain
  | takeDiagnostics

/- Whether a call asks for a token, and not for problems. -/
def Call.asks : Call → Bool
  | next | nextToken => true
  | drain | takeDiagnostics => false

/- How many of some calls ask for a token. -/
def Call.asking (calls : List Call) : Nat :=
  calls.countP Call.asks

theorem Call.asking_cons
    (call : Call)
    (calls : List Call) :
    asking (call :: calls) = asking [call] + asking calls := by
  rw [asking, ← List.singleton_append, List.countP_append]
  rfl

/- What a lexer does as a source of tokens. -/
def asSource
    {α : Type}
    (l : Lexer)
    (call : TokenSource → α × TokenSource) : α × Lexer :=
  match call (.script l) with
  | (x, .script m) => (x, m)
  | (x, _) => (x, l)

/-
  A lexer on its way, with all answers to calls for a token
  and all problems that it has handed over.
-/
structure Run where
  lexer : Lexer
  found : List (Option Token) := []
  drained : List Diagnostic := []

namespace Run

/- A run before its first call. -/
def start (source : String) : Run :=
  { lexer := .ofSource source }

/- A run after an answer to a call for a token. -/
def asked
    (run : Run)
    (answer : Option Token × Lexer) : Run :=
  { run with
    lexer := answer.2,
    found := run.found ++ [answer.1] }

/- A run after an answer to a call for problems. -/
def handed
    (run : Run)
    (answer : List Diagnostic × Lexer) : Run :=
  { run with
    lexer := answer.2,
    drained := run.drained ++ answer.1 }

def step
    (run : Run) : Call → Run
  | .next => run.asked run.lexer.next
  | .nextToken => run.asked (run.lexer.asSource TokenSource.next)
  | .drain => run.handed run.lexer.drain
  | .takeDiagnostics =>
      run.handed (run.lexer.asSource TokenSource.drain)

/- A run after some more calls. -/
def after
    (run : Run)
    (calls : List Call) : Run :=
  calls.foldl step run

/-
  The problems that a run has come across, handed over or
  still pending.
-/
def met (run : Run) : List Diagnostic :=
  run.drained ++ run.lexer.pending

/- As a source of tokens a lexer answers as it always does. -/
theorem step_eq
    (run : Run)
    (call : Call) :
    run.step call
      = if call.asks then
          run.asked run.lexer.next
        else
          run.handed run.lexer.drain := by
  cases call <;> rfl

/- Every call for a token is answered. -/
theorem length_found_step
    (run : Run)
    (call : Call) :
    (run.step call).found.length
      = run.found.length + Call.asking [call] := by
  rw [step_eq]
  cases hAsks : call.asks <;>
    simp [asked, handed, Call.asking, hAsks]

theorem length_found_after
    (run : Run)
    (calls : List Call) :
    (run.after calls).found.length
      = run.found.length + Call.asking calls := by
  induction calls generalizing run with
  | nil => rfl
  | cons call calls ih =>
      rw [Call.asking_cons, ← Nat.add_assoc,
        ← length_found_step]
      exact ih (run.step call)

------------------------------------------------------------
-- What Calls Keep
------------------------------------------------------------

/-
  Answers and tokens to come make up `tokens`, and problems
  handed over and to come make up `problems`. Where an answer
  was that there is no token, no text is left.
-/
structure Keeps
    (tokens : List Token)
    (problems : List Diagnostic)
    (run : Run) : Prop where
  found :
    run.found
      = (List.range run.found.length).map fun i => tokens[i]?
  left : run.lexer.tokens = tokens.drop run.found.length
  problems : run.drained ++ run.lexer.problems = problems
  ended : none ∈ run.found → run.lexer.rest = []

variable {tokens : List Token}
variable {problems : List Diagnostic}
variable {run : Run}

theorem keeps_start
    (source : String) :
    (start source).Keeps (tokenize source).1
      (tokenize source).2 where
  found := rfl
  left := rfl
  problems := rfl
  ended := by simp [start]

namespace Keeps

/- The answer to a call for a token is the next one. -/
theorem asked
    (hKeeps : run.Keeps tokens problems) :
    (run.asked run.lexer.next).Keeps tokens problems where
  found := by
    have hNext : run.lexer.next.1 = tokens[run.found.length]? := by
      rw [← List.head?_drop, ← hKeeps.left]
      exact (TokenSource.script run.lexer).next_fst
    have hFound := hKeeps.found
    simp only [Run.asked, List.length_append,
      List.length_singleton, List.range_succ, List.map_append,
      List.map_singleton, ← hNext]
    rw [← hFound]
  left := by
    have hTokens := (TokenSource.script run.lexer).tokens_next
    have hLeft : run.lexer.next.2.tokens = run.lexer.tokens.tail :=
      hTokens
    rw [Run.asked, hLeft, hKeeps.left, List.tail_drop,
      List.length_append]
    rfl
  problems := by
    have hSame := (TokenSource.script run.lexer).problems_next
    have hProblems : run.lexer.next.2.problems = run.lexer.problems :=
      hSame
    rw [Run.asked, hProblems]
    exact hKeeps.problems
  ended := by
    intro hNone
    rcases List.mem_append.mp hNone with hBefore | hNow
    · rw [Run.asked, next_of_rest_nil (hKeeps.ended hBefore)]
      exact hKeeps.ended hBefore
    · apply rest_of_next_none (l := run.lexer)
      rw [List.mem_singleton.mp hNow]
      rfl

/- Problems that are handed over do not come again. -/
theorem handed
    (hKeeps : run.Keeps tokens problems) :
    (run.handed run.lexer.drain).Keeps tokens problems where
  found := hKeeps.found
  left := run.lexer.tokens_drain.trans hKeeps.left
  problems := by
    rw [Run.handed, List.append_assoc, drain,
      ← hKeeps.problems, run.lexer.problems_drain]
    rfl
  ended := hKeeps.ended

theorem step
    (call : Call)
    (hKeeps : run.Keeps tokens problems) :
    (run.step call).Keeps tokens problems := by
  rw [step_eq]
  split
  · exact hKeeps.asked
  · exact hKeeps.handed

theorem after
    (calls : List Call)
    (hKeeps : run.Keeps tokens problems) :
    (run.after calls).Keeps tokens problems := by
  induction calls generalizing run with
  | nil => exact hKeeps
  | cons call calls ih => exact ih (hKeeps.step call)

/- What has been met so far comes first among all problems. -/
theorem met_prefix
    (hKeeps : run.Keeps tokens problems) :
    run.met <+: problems := by
  refine ⟨run.lexer.drain.2.problems, ?_⟩
  rw [met, List.append_assoc, ← run.lexer.problems_drain]
  exact hKeeps.problems

end Keeps

------------------------------------------------------------
-- Calls at the End
------------------------------------------------------------

/- Without text there is nothing more to meet. -/
theorem met_of_ended
    (hKeeps : run.Keeps tokens problems)
    (hRest : run.lexer.rest = []) :
    run.met = problems := by
  rw [← hKeeps.problems,
    problems_of_none (next_of_rest_nil hRest)]
  rfl

/- A call at the end finds no token and meets no problem. -/
theorem step_of_ended
    (call : Call)
    (hRest : run.lexer.rest = []) :
    (run.step call).lexer.rest = []
      ∧ (run.step call).found
          = run.found ++ List.replicate (Call.asking [call]) none
      ∧ (run.step call).met = run.met := by
  rw [step_eq]
  rcases hAsks : call.asks with _ | _
  · simp [handed, met, drain, Call.asking, hAsks, hRest]
  · simp [asked, met, next_of_rest_nil hRest, Call.asking,
      hAsks, hRest]

/- Nor do more calls. -/
theorem after_of_ended
    (calls : List Call)
    (hRest : run.lexer.rest = []) :
    (run.after calls).found
        = run.found ++ List.replicate (Call.asking calls) none
      ∧ (run.after calls).met = run.met := by
  induction calls generalizing run with
  | nil => simp [after, Call.asking]
  | cons call calls ih =>
      rcases step_of_ended call hRest with
        ⟨hRest, hFound, hMet⟩
      rcases ih hRest with ⟨hMoreFound, hMoreMet⟩
      constructor
      · rw [Call.asking_cons, ← List.replicate_append_replicate,
          ← List.append_assoc, ← hFound]
        exact hMoreFound
      · exact hMoreMet.trans hMet

/-
  Whatever calls are made to a lexer, the answers are its
  tokens in order, and then that there are none. The first
  such answer comes after every problem, and later calls
  change nothing. There is one problem at most, it is met
  once, and it goes up to the end of the text.
-/
theorem ends_once
    (source : String)
    (calls : List Call) :
    let run := (start source).after calls
    run.found
        = (List.range (Call.asking calls)).map
            (fun i => (tokenize source).1[i]?)
      ∧ run.met <+: (tokenize source).2
      ∧ (none ∈ run.found →
          run.met = (tokenize source).2
            ∧ ∀ more : List Call,
                (run.after more).found
                    = run.found
                        ++ List.replicate (Call.asking more) none
                  ∧ (run.after more).met = run.met)
      ∧ (tokenize source).2.length ≤ 1
      ∧ ∀ d ∈ (tokenize source).2,
          d.EndsText (tokenize source).1
            source.utf8ByteSize := by
  intro run
  have hKeeps : run.Keeps (tokenize source).1 (tokenize source).2 :=
    (keeps_start source).after calls
  have hTiling := tiling_tokenize source
  refine ⟨?_, hKeeps.met_prefix, ?_,
    hTiling.length_problems_le, ?_⟩
  · have hCount : run.found.length = Call.asking calls := by
      rw [length_found_after]
      simp [start]
    rw [← hCount]
    exact hKeeps.found
  · intro hNone
    have hRest := hKeeps.ended hNone
    refine ⟨met_of_ended hKeeps hRest, ?_⟩
    intro more
    exact after_of_ended more hRest
  · intro d hd
    have hEnds := hTiling.endsText d hd
    rw [Position.offset_after, String.ofList_toList] at hEnds
    simpa [Position.first] using hEnds

/- A comment that is not closed is not read again. -/
example :
    let run :=
      (start "a /*").after
        [.next, .nextToken, .drain, .next, .takeDiagnostics]
    run.found.map Option.isSome = [true, false, false]
      ∧ run.drained.map Diagnostic.kind
          = [.unterminatedComment] := by
  decide +kernel

end Run
end Lexer
end BlockScript
