import Mathlib.Data.Set.Card
import BlockScript.Registry

/-
  This file follows a registry through any calls that build
  it: kinds that are registered, and changes of what happens
  to duplicates, in any order. What the registry holds is
  told by the kinds that were accepted on the way, and its
  table, its order and its duplicates always fit together.

  Key definitions include:
    * `Registry.Refusal`
    * `Registry.Coherent`
    * `Registry.Holds`
    * `Keywords.repeats`
    * `Registry.Builder.Session`

  Key theorems include:
    * `Registry.Builder.registers`
    * `Registry.Builder.refusal_iff`
    * `Registry.Builder.unchanged_of_error`
    * `Registry.Holds.coherent`
    * `Registry.Builder.Session.Follows.step`
    * `Registry.Builder.registry_of_calls`
-/

namespace BlockScript

------------------------------------------------------------
-- Refusals
------------------------------------------------------------

/- Characters that no keyword may have. -/
def Keywords.Unfit (c : Char) : Prop :=
  Text.isBlank c = true ∨ c ∈ ['\x7b', '\x7d', '(', ')', '"']

theorem Keywords.unfit_iff
    {c : Char} :
    Unfit c ↔ isDelimiter c = true := by
  have hMark :
      (TokenKind.ofPunctuation? c).isSome = true
        ↔ c ∈ ['\x7b', '\x7d', '(', ')'] := by
    unfold TokenKind.ofPunctuation?
    split <;> simp_all
  simp only [Unfit, isDelimiter, Bool.or_eq_true, hMark,
    beq_iff_eq, List.mem_cons, List.not_mem_nil, or_false,
    or_assoc]

/-
  Why a keyword is refused, where some keywords are taken: it
  is empty, it has a character that no keyword may have, or
  it is taken and duplicates are rejected.
-/
inductive Registry.Refusal
    (taken : List String)
    (policy : DuplicatePolicy)
    (keyword : String) : RegistryError → Prop where
  | empty
      (hEmpty : keyword = "") :
      Refusal taken policy keyword .emptyKeyword
  | invalid
      {c : Char}
      (hHolds : c ∈ keyword.toList)
      (hUnfit : Keywords.Unfit c) :
      Refusal taken policy keyword (.invalidKeyword keyword)
  | duplicate
      (hSome : keyword ≠ "")
      (hFit : ∀ c ∈ keyword.toList, ¬ Keywords.Unfit c)
      (hTaken : keyword ∈ taken)
      (hPolicy : policy = .reject) :
      Refusal taken policy keyword
        (.duplicateRegistration keyword)

/- It matters only whether the keyword itself is taken. -/
theorem Registry.Refusal.of_taken
    {taken taken' : List String}
    {policy : DuplicatePolicy}
    {keyword : String}
    {e : RegistryError}
    (hRefusal : Refusal taken policy keyword e)
    (hTaken : keyword ∈ taken → keyword ∈ taken') :
    Refusal taken' policy keyword e := by
  cases hRefusal with
  | empty hEmpty => exact .empty hEmpty
  | invalid hHolds hUnfit => exact .invalid hHolds hUnfit
  | duplicate hSome hFit hThere hPolicy =>
      exact .duplicate hSome hFit (hTaken hThere) hPolicy

/- Whether keywords are taken matters, not in which order. -/
theorem Registry.Refusal.mono
    {taken taken' : List String}
    {policy : DuplicatePolicy}
    {keyword : String}
    {e : RegistryError}
    (hTaken : ∀ k, k ∈ taken → k ∈ taken')
    (hRefusal : Refusal taken policy keyword e) :
    Refusal taken' policy keyword e :=
  hRefusal.of_taken (hTaken keyword)

namespace Registry.Builder

/-
  What can come of a kind that is registered: what the call
  returns, and the builder after it. A call that refuses a
  kind leaves the builder as it was.
-/
inductive Registers
    (b : Builder)
    (kind : BlockKind) :
    Except RegistryError Unit × Builder → Prop where
  | refused
      {e : RegistryError}
      (hRefusal :
        Refusal b.registry.table.keywords b.policy
          kind.keyword e) :
      Registers b kind (.error e, b)
  | replaced
      (hSome : kind.keyword ≠ "")
      (hFit : ∀ c ∈ kind.keyword.toList, ¬ Keywords.Unfit c)
      (hTaken : kind.keyword ∈ b.registry.table.keywords)
      (hPolicy : b.policy = .replace) :
      Registers b kind
        (.ok (), { b with registry := b.registry.replace kind })
  | added
      (hSome : kind.keyword ≠ "")
      (hFit : ∀ c ∈ kind.keyword.toList, ¬ Keywords.Unfit c)
      (hNew : kind.keyword ∉ b.registry.table.keywords) :
      Registers b kind
        (.ok (), { b with registry := b.registry.add kind })

/- Registering does one of three things. -/
theorem registers
    (b : Builder)
    (kind : BlockKind) :
    b.Registers kind (b.registerInPlace kind) := by
  have hEmpty :
      kind.keyword.toList.isEmpty = true ↔ kind.keyword = "" := by
    rw [List.isEmpty_iff, ← String.toList_inj]
    rfl
  unfold registerInPlace
  by_cases hNone : kind.keyword.toList.isEmpty = true
  · simp only [if_pos hNone]
    exact .refused (.empty (hEmpty.mp hNone))
  · have hSome : kind.keyword ≠ "" := fun h => hNone (hEmpty.mpr h)
    by_cases hAny : kind.keyword.toList.any isDelimiter = true
    · rcases List.any_eq_true.mp hAny with ⟨c, hHolds, hUnfit⟩
      simp only [if_neg hNone, if_pos hAny]
      exact .refused
        (.invalid hHolds (Keywords.unfit_iff.mpr hUnfit))
    · have hFit :
          ∀ c ∈ kind.keyword.toList, ¬ Keywords.Unfit c := by
        intro c hHolds hUnfit
        apply hAny
        exact List.any_eq_true.mpr
          ⟨c, hHolds, Keywords.unfit_iff.mp hUnfit⟩
      simp only [if_neg hNone, if_neg hAny]
      by_cases hTaken : b.registry.contains kind.keyword = true
      · have hThere := KindTable.contains_iff.mp hTaken
        rw [if_pos hTaken]
        split
        · rename_i hPolicy
          exact .refused (.duplicate hSome hFit hThere hPolicy)
        · rename_i hPolicy
          exact .replaced hSome hFit hThere hPolicy
      · rw [if_neg hTaken]
        apply Registers.added hSome hFit
        intro hThere
        exact hTaken (KindTable.contains_iff.mpr hThere)

/- A kind is refused for the reasons there are. -/
theorem refusal_iff
    {b : Builder}
    {kind : BlockKind}
    {e : RegistryError} :
    (b.registerInPlace kind).1 = .error e
      ↔ Refusal b.registry.table.keywords b.policy
          kind.keyword e := by
  have hRegisters := b.registers kind
  constructor
  · intro hError
    generalize b.registerInPlace kind = x at hRegisters hError
    cases hRegisters with
    | refused hRefusal =>
        cases hError
        exact hRefusal
    | replaced => cases hError
    | added => cases hError
  · intro hRefusal
    generalize b.registerInPlace kind = x at hRegisters ⊢
    cases hRegisters with
    | refused hOther =>
        -- The three reasons exclude each other.
        cases hRefusal <;> cases hOther <;> simp_all
    | replaced hSome hFit hTaken hPolicy =>
        cases hRefusal with
        | empty hEmpty => exact absurd hEmpty hSome
        | invalid hHolds hUnfit =>
            exact absurd hUnfit (hFit _ hHolds)
        | duplicate _ _ _ hReject =>
            rw [hPolicy] at hReject
            cases hReject
    | added hSome hFit hNew =>
        cases hRefusal with
        | empty hEmpty => exact absurd hEmpty hSome
        | invalid hHolds hUnfit =>
            exact absurd hUnfit (hFit _ hHolds)
        | duplicate _ _ hTaken _ => exact absurd hTaken hNew

/- Where a kind is refused, the builder stays as it was. -/
theorem unchanged_of_error
    {b : Builder}
    {kind : BlockKind}
    {e : RegistryError}
    (hError : (b.registerInPlace kind).1 = .error e) :
    (b.registerInPlace kind).2 = b := by
  have hRegisters := b.registers kind
  generalize b.registerInPlace kind = x at hRegisters hError ⊢
  cases hRegisters with
  | refused => rfl
  | replaced => cases hError
  | added => cases hError

/- The builder is handed on if the kind is not refused. -/
theorem register_eq_ok_iff
    {b b' : Builder}
    {kind : BlockKind} :
    b.register kind = .ok b'
      ↔ b.registerInPlace kind = (.ok (), b') := by
  unfold register
  split
  · rename_i hCall
    rw [hCall, Except.ok.injEq, Prod.mk.injEq]
    exact (and_iff_right rfl).symm
  · rename_i hCall
    simp [hCall]

theorem register_eq_error_iff
    {b : Builder}
    {kind : BlockKind}
    {e : RegistryError} :
    b.register kind = .error e
      ↔ (b.registerInPlace kind).1 = .error e := by
  unfold register
  split
  · rename_i hCall
    simp [hCall]
  · rename_i hCall
    simp [hCall]

end Registry.Builder

------------------------------------------------------------
-- Repeated Keywords
------------------------------------------------------------

namespace Keywords

/- Those that stand in a list before their own place, too. -/
def repeats (keywords : List String) : List String :=
  (keywords.zipIdx.filter fun (keyword, i) =>
    (keywords.take i).contains keyword).map Prod.fst

theorem repeats_concat
    (keywords : List String)
    (keyword : String) :
    repeats (keywords ++ [keyword])
      = repeats keywords
          ++ if keyword ∈ keywords then [keyword] else [] := by
  have hBefore :
      (keywords.zipIdx.filter fun (k, i) =>
          ((keywords ++ [keyword]).take i).contains k)
        = keywords.zipIdx.filter fun (k, i) =>
            (keywords.take i).contains k := by
    apply List.filter_congr
    rintro ⟨k, i⟩ hPlace
    have hLess := (List.mem_zipIdx hPlace).2.1
    rw [Nat.zero_add] at hLess
    simp only [
      List.take_append_of_le_length (Nat.le_of_lt hLess)]
  unfold repeats
  rw [List.zipIdx_append, List.filter_append, hBefore,
    List.map_append]
  by_cases hThere : keyword ∈ keywords <;> simp [hThere]

/- A keyword that is repeated has no new first place. -/
theorem eraseDups_concat
    (keywords : List String)
    (keyword : String) :
    (keywords ++ [keyword]).eraseDups
      = keywords.eraseDups
          ++ if keyword ∈ keywords then [] else [keyword] := by
  rw [List.eraseDups_append, List.removeAll]
  by_cases hThere : keyword ∈ keywords
  · simp [hThere]
  · simp [hThere, List.eraseDups_cons]

theorem nodup_eraseDups
    (keywords : List String) :
    keywords.eraseDups.Nodup := by
  induction keywords using List.reverseRecOn with
  | nil => simp
  | append_singleton keywords keyword ih =>
      rw [eraseDups_concat]
      by_cases hThere : keyword ∈ keywords
      · simpa [hThere] using ih
      · rw [if_neg hThere, ← List.concat_eq_append]
        refine List.Nodup.concat ?_ ih
        simpa using hThere

end Keywords

------------------------------------------------------------
-- What a Registry Holds
------------------------------------------------------------

namespace Registry

/- A kind that was added is found by its keyword. -/
theorem lookup_add
    (r : Registry)
    (kind : BlockKind)
    (keyword : String) :
    (r.add kind).lookup keyword
      = if kind.keyword = keyword then
          some kind
        else
          r.lookup keyword :=
  r.table.get?_insert kind.keyword kind keyword

/- So is one that was put in the place of another. -/
theorem lookup_replace
    (r : Registry)
    (kind : BlockKind)
    (keyword : String) :
    (r.replace kind).lookup keyword
      = if kind.keyword = keyword then
          some kind
        else
          r.lookup keyword :=
  r.table.get?_insert kind.keyword kind keyword

/-
  A registry whose parts fit together: the order lists the
  keywords that have a kind, each of them once, and each kind
  is found by its own keyword.
-/
structure Coherent (r : Registry) : Prop where
  distinct : r.order.Nodup
  listed :
    ∀ keyword, keyword ∈ r.order ↔ r.contains keyword = true
  keyed :
    ∀ keyword kind,
      r.lookup keyword = some kind → kind.keyword = keyword

namespace Coherent

variable {r : Registry}

/- Each keyword of the order has a kind, which has it. -/
theorem lookup_of_mem_order
    {keyword : String}
    (hCoherent : r.Coherent)
    (hListed : keyword ∈ r.order) :
    ∃ kind,
      r.lookup keyword = some kind ∧ kind.keyword = keyword := by
  have hSome := (hCoherent.listed keyword).mp hListed
  rcases Option.isSome_iff_exists.mp hSome with ⟨kind, hFound⟩
  exact ⟨kind, hFound, hCoherent.keyed keyword kind hFound⟩

/- The kinds are listed in the order of their keywords. -/
theorem map_kinds
    (hCoherent : r.Coherent) :
    r.kinds.map BlockKind.keyword = r.order := by
  have hAll :
      ∀ keywords : List String,
        (∀ keyword ∈ keywords, keyword ∈ r.order) →
          (keywords.filterMap r.lookup).map BlockKind.keyword
            = keywords := by
    intro keywords hListed
    induction keywords with
    | nil => rfl
    | cons keyword keywords ih =>
        rw [List.forall_mem_cons] at hListed
        rcases hCoherent.lookup_of_mem_order hListed.1 with
          ⟨kind, hFound, hOwn⟩
        rw [List.filterMap_cons_some hFound, List.map_cons, hOwn,
          ih hListed.2]
  exact hAll r.order fun _ h => h

/- Each kind that is listed is the one found. -/
theorem lookup_of_mem
    {kind : BlockKind}
    (hCoherent : r.Coherent)
    (hKind : kind ∈ r.kinds) :
    r.lookup kind.keyword = some kind := by
  rcases List.mem_filterMap.mp hKind with ⟨keyword, -, hFound⟩
  rwa [hCoherent.keyed keyword kind hFound]

/- The order and the table have the same keywords. -/
theorem perm
    (hCoherent : r.Coherent) :
    r.order.Perm r.table.keywords := by
  rw [List.perm_ext_iff_of_nodup hCoherent.distinct
    r.table.nodup_keywords]
  intro keyword
  rw [hCoherent.listed]
  exact KindTable.contains_iff

/- As many kinds are listed as there are. -/
theorem length_kinds
    (hCoherent : r.Coherent) :
    r.kinds.length = r.size := by
  have hOrder := congrArg List.length hCoherent.map_kinds
  rw [List.length_map] at hOrder
  rw [hOrder, hCoherent.perm.length_eq]
  exact r.table.length_keywords

end Coherent

/- There are as many kinds as keywords that have one. -/
theorem card_keywords
    (r : Registry) :
    {keyword | r.contains keyword = true}.ncard = r.size := by
  have hSet :
      {keyword | r.contains keyword = true}
        = (r.table.keywords.toFinset : Set String) := by
    ext keyword
    rw [Finset.mem_coe, List.mem_toFinset]
    exact KindTable.contains_iff
  rw [hSet, Set.ncard_coe_finset,
    List.toFinset_card_of_nodup r.table.nodup_keywords]
  exact r.table.length_keywords

/-
  What a registry holds after some kinds were accepted: for
  each keyword the last of its kinds, the order in which
  keywords came first, and each keyword that came again.
-/
structure Holds
    (r : Registry)
    (accepted : List BlockKind) : Prop where
  lookup :
    ∀ keyword,
      r.lookup keyword
        = accepted.findRev? (·.keyword == keyword)
  order :
    r.order = (accepted.map BlockKind.keyword).eraseDups
  duplicates :
    r.duplicates
      = Keywords.repeats (accepted.map BlockKind.keyword)

namespace Holds

variable {r : Registry}
variable {accepted : List BlockKind}

theorem nil : empty.Holds [] :=
  ⟨fun _ => rfl, rfl, rfl⟩

/- A keyword is taken if a kind with it was accepted. -/
theorem taken_iff
    {keyword : String}
    (hHolds : r.Holds accepted) :
    keyword ∈ r.table.keywords
      ↔ keyword ∈ accepted.map BlockKind.keyword := by
  rw [← KindTable.contains_iff, KindTable.contains,
    ← Registry.lookup, hHolds.lookup,
    List.findRev?_eq_find?_reverse, List.find?_isSome]
  simp

theorem findRev?_concat
    (accepted : List BlockKind)
    (kind : BlockKind)
    (keyword : String) :
    (accepted ++ [kind]).findRev? (·.keyword == keyword)
      = if kind.keyword = keyword then
          some kind
        else
          accepted.findRev? (·.keyword == keyword) := by
  simp only [List.findRev?_eq_find?_reverse,
    List.reverse_append, List.reverse_singleton,
    List.singleton_append, List.find?_cons]
  by_cases hSame : kind.keyword = keyword
  · simp [hSame]
  · rw [if_neg hSame, beq_eq_false_iff_ne.mpr hSame]

theorem add
    {kind : BlockKind}
    (hHolds : r.Holds accepted)
    (hNew : kind.keyword ∉ r.table.keywords) :
    (r.add kind).Holds (accepted ++ [kind]) where
  lookup keyword := by
    rw [lookup_add, findRev?_concat, hHolds.lookup]
  order := by
    have hOld := fun h => hNew (hHolds.taken_iff.mpr h)
    rw [Registry.add, List.map_append, hHolds.order,
      List.map_singleton, Keywords.eraseDups_concat, if_neg hOld]
  duplicates := by
    have hOld := fun h => hNew (hHolds.taken_iff.mpr h)
    rw [Registry.add, List.map_append, List.map_singleton,
      Keywords.repeats_concat, if_neg hOld, List.append_nil,
      hHolds.duplicates]

theorem replace
    {kind : BlockKind}
    (hHolds : r.Holds accepted)
    (hTaken : kind.keyword ∈ r.table.keywords) :
    (r.replace kind).Holds (accepted ++ [kind]) where
  lookup keyword := by
    rw [lookup_replace, findRev?_concat, hHolds.lookup]
  order := by
    rw [Registry.replace, List.map_append, List.map_singleton,
      hHolds.order, Keywords.eraseDups_concat,
      if_pos (hHolds.taken_iff.mp hTaken), List.append_nil]
  duplicates := by
    rw [Registry.replace, List.map_append, List.map_singleton,
      Keywords.repeats_concat,
      if_pos (hHolds.taken_iff.mp hTaken), hHolds.duplicates]

/- The parts of a registry fit together all the time. -/
theorem coherent
    (hHolds : r.Holds accepted) :
    r.Coherent where
  distinct := by
    rw [hHolds.order]
    exact Keywords.nodup_eraseDups _
  listed keyword := by
    rw [hHolds.order, List.mem_eraseDups, ← hHolds.taken_iff]
    exact KindTable.contains_iff.symm
  keyed keyword kind hFound := by
    rw [hHolds.lookup, List.findRev?_eq_find?_reverse] at hFound
    simpa using List.find?_some hFound

/- A registry is empty as long as nothing was accepted. -/
theorem isEmpty_iff
    (hHolds : r.Holds accepted) :
    r.isEmpty = true ↔ accepted = [] := by
  have hNone : r.isEmpty = true ↔ r.table.keywords = [] := by
    simp [Registry.isEmpty, KindTable.keywords]
  rw [hNone, List.eq_nil_iff_forall_not_mem,
    ← List.map_eq_nil_iff (f := BlockKind.keyword),
    List.eq_nil_iff_forall_not_mem]
  exact forall_congr' fun _ => not_congr hHolds.taken_iff

end Holds

/- A warning that a keyword was registered again. -/
structure IsWarningFor
    (keyword : String)
    (d : Diagnostic) : Prop where
  kind : d.kind = .duplicateRegistration
  severity : d.severity = .warning
  message :
    d.message
      = "block keyword '" ++ keyword
          ++ "' was registered more than once; "
          ++ "the last registration wins"

/- There is one warning for each of the duplicates. -/
theorem warnings_duplicates
    (r : Registry) :
    List.Forall₂ IsWarningFor
      r.duplicates r.duplicateDiagnostics := by
  rw [duplicateDiagnostics, List.forall₂_map_right_iff,
    List.forall₂_same]
  intro keyword _
  exact ⟨rfl, rfl, rfl⟩

------------------------------------------------------------
-- Sessions
------------------------------------------------------------

namespace Builder

/- What can be done with a registry under construction. -/
inductive Call where
  | register (kind : BlockKind)
  | withPolicy (policy : DuplicatePolicy)

namespace Call

/- What happens to duplicates from a call on. -/
def policy? : Call → Option DuplicatePolicy
  | register _ => none
  | withPolicy policy => some policy

/- What happens to duplicates after some calls. -/
def policyAfter (calls : List Call) : DuplicatePolicy :=
  (calls.filterMap policy?).getLast?.getD .replace

end Call

/- What a call returns, and the builder after it. -/
def perform
    (b : Builder) :
    Call → Except RegistryError Unit × Builder
  | .register kind => b.registerInPlace kind
  | .withPolicy policy => (.ok (), b.withPolicy policy)

/- What is found after a kind was accepted. -/
theorem lookup_register
    {b : Builder}
    {kind : BlockKind}
    (hOk : (b.registerInPlace kind).1 = .ok ())
    (keyword : String) :
    (b.registerInPlace kind).2.registry.lookup keyword
      = if kind.keyword = keyword then
          some kind
        else
          b.registry.lookup keyword := by
  have hRegisters := b.registers kind
  generalize b.registerInPlace kind = x at hRegisters hOk ⊢
  cases hRegisters with
  | refused => cases hOk
  | replaced => exact b.registry.lookup_replace kind keyword
  | added => exact b.registry.lookup_add kind keyword

/- No kind changes what happens to duplicates. -/
theorem policy_register
    (b : Builder)
    (kind : BlockKind) :
    (b.registerInPlace kind).2.policy = b.policy := by
  have hRegisters := b.registers kind
  generalize b.registerInPlace kind = x at hRegisters
  cases hRegisters <;> rfl

/- A refusal depends on the kinds that were accepted. -/
theorem refusal_accepted_iff
    {b : Builder}
    {accepted : List BlockKind}
    {kind : BlockKind}
    {e : RegistryError}
    (hHolds : b.registry.Holds accepted) :
    (b.registerInPlace kind).1 = .error e
      ↔ Refusal (accepted.map BlockKind.keyword) b.policy
          kind.keyword e := by
  rw [refusal_iff]
  constructor
  · exact Refusal.mono fun _ => hHolds.taken_iff.mp
  · exact Refusal.mono fun _ => hHolds.taken_iff.mpr

/- A kind that is accepted is held from then on. -/
theorem holds_of_register
    {b : Builder}
    {accepted : List BlockKind}
    {kind : BlockKind}
    (hHolds : b.registry.Holds accepted)
    (hOk : (b.registerInPlace kind).1 = .ok ()) :
    (b.registerInPlace kind).2.registry.Holds
      (accepted ++ [kind]) := by
  have hRegisters := b.registers kind
  generalize b.registerInPlace kind = x at hRegisters hOk ⊢
  cases hRegisters with
  | refused => cases hOk
  | replaced _ _ hTaken _ => exact hHolds.replace hTaken
  | added _ _ hNew => exact hHolds.add hNew

/-
  A registry under construction, with the calls made so far
  and what they returned.
-/
structure Session where
  builder : Builder := {}
  replies : List (Call × Except RegistryError Unit) := []

namespace Session

/- The kind that a call has registered, if it has. -/
def accepted? : Call × Except RegistryError Unit → Option BlockKind
  | (.register kind, .ok ()) => some kind
  | _ => none

/- The kinds registered so far. -/
def accepted (s : Session) : List BlockKind :=
  s.replies.filterMap accepted?

/- Make a call, whatever comes of it. -/
def step
    (s : Session)
    (call : Call) : Session :=
  let (reply, builder) := s.builder.perform call
  { builder, replies := s.replies ++ [(call, reply)] }

/- A session after some calls, from an empty registry on. -/
def ofCalls (calls : List Call) : Session :=
  calls.foldl step {}

theorem ofCalls_concat
    (calls : List Call)
    (call : Call) :
    ofCalls (calls ++ [call]) = (ofCalls calls).step call := by
  simp [ofCalls]

theorem accepted_step
    (s : Session)
    (call : Call) :
    (s.step call).accepted
      = s.accepted
          ++ (accepted? (call, (s.builder.perform call).1)).toList := by
  rw [accepted, step, List.filterMap_append]
  cases h : accepted? (call, (s.builder.perform call).1) <;>
    simp [h, accepted]

/- What the calls so far say about a session. -/
structure Follows
    (s : Session)
    (calls : List Call) : Prop where
  made : s.replies.map Prod.fst = calls
  holds : s.builder.registry.Holds s.accepted
  policy : s.builder.policy = Call.policyAfter calls

/- A call leaves a session that follows from the calls. -/
theorem Follows.step
    {s : Session}
    {calls : List Call}
    (call : Call)
    (hFollows : s.Follows calls) :
    (s.step call).Follows (calls ++ [call]) := by
  have hCalls :
      (s.step call).replies.map Prod.fst = calls ++ [call] := by
    simp [Session.step, hFollows.made]
  have hAccepted := s.accepted_step call
  cases call with
  | withPolicy policy =>
      rw [show accepted? (.withPolicy policy, _) = none from rfl,
        Option.toList_none, List.append_nil] at hAccepted
      refine ⟨hCalls, ?_, ?_⟩
      · rw [hAccepted]
        exact hFollows.holds
      · simp [Session.step, perform, withPolicy, Call.policyAfter,
          Call.policy?]
  | register kind =>
      have hBuilder :
          (s.step (.register kind)).builder
            = (s.builder.registerInPlace kind).2 :=
        rfl
      have hPolicy :
          (s.step (.register kind)).builder.policy
            = Call.policyAfter (calls ++ [.register kind]) := by
        rw [hBuilder, policy_register, hFollows.policy]
        simp [Call.policyAfter, Call.policy?]
      rw [perform] at hAccepted
      rcases hReply : (s.builder.registerInPlace kind).1 with e | _
      · rw [unchanged_of_error hReply] at hBuilder
        rw [hReply, show accepted? (.register kind, .error e) = none
          from rfl, Option.toList_none, List.append_nil] at hAccepted
        refine ⟨hCalls, ?_, hPolicy⟩
        rw [hAccepted, hBuilder]
        exact hFollows.holds
      · have hHolds := holds_of_register hFollows.holds hReply
        rw [hReply, show accepted? (.register kind, .ok ())
          = some kind from rfl, Option.toList_some] at hAccepted
        refine ⟨hCalls, ?_, hPolicy⟩
        rw [hAccepted, hBuilder]
        exact hHolds

theorem follows_ofCalls
    (calls : List Call) :
    (ofCalls calls).Follows calls := by
  induction calls using List.reverseRecOn with
  | nil => exact ⟨rfl, .nil, rfl⟩
  | append_singleton calls call ih =>
      rw [ofCalls_concat]
      exact ih.step call

end Session

/-
  The registry built by any calls, and the next kind. The
  kind is refused for one of the reasons there are, and then
  the builder stays as it was. Table, order and duplicates
  fit together: each keyword has the kind that was accepted
  last for it, keywords are listed once and in the order in
  which they came first, and each one that came again is
  told.
-/
theorem registry_of_calls
    (calls : List Call) :
    let s := Session.ofCalls calls
    let r := s.builder.build
    let keywords := s.accepted.map BlockKind.keyword
    s.replies.map Prod.fst = calls
      ∧ (∀ kind e,
          (s.builder.registerInPlace kind).1 = .error e
            ↔ Refusal keywords (Call.policyAfter calls)
                kind.keyword e)
      ∧ (∀ kind e,
          (s.builder.registerInPlace kind).1 = .error e →
            (s.builder.registerInPlace kind).2 = s.builder)
      ∧ (∀ keyword,
          r.lookup keyword
            = s.accepted.findRev? (·.keyword == keyword))
      ∧ r.Coherent
      ∧ r.order = keywords.eraseDups
      ∧ r.kinds.map BlockKind.keyword = r.order
      ∧ (∀ kind ∈ r.kinds, r.lookup kind.keyword = some kind)
      ∧ r.kinds.length = r.size
      ∧ {keyword | r.contains keyword = true}.ncard = r.size
      ∧ (r.isEmpty = true ↔ s.accepted = [])
      ∧ r.duplicates = Keywords.repeats keywords
      ∧ List.Forall₂ IsWarningFor
          r.duplicates r.duplicateDiagnostics := by
  intro s r keywords
  have hFollows : s.Follows calls := Session.follows_ofCalls calls
  have hHolds : r.Holds s.accepted := hFollows.holds
  have hCoherent := hHolds.coherent
  refine ⟨hFollows.made, ?_, ?_, hHolds.lookup, hCoherent,
    hHolds.order, hCoherent.map_kinds, ?_,
    hCoherent.length_kinds, r.card_keywords, hHolds.isEmpty_iff,
    hHolds.duplicates, warnings_duplicates r⟩
  · intro kind e
    rw [refusal_accepted_iff hHolds, hFollows.policy]
  · intro kind e hError
    exact unchanged_of_error hError
  · intro kind hKind
    exact hCoherent.lookup_of_mem hKind

end Builder
end Registry
end BlockScript
