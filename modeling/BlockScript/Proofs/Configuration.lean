import BlockScript.Proofs.Registration
import BlockScript.Settings

/-
  This file says which registry settings ask for: whether
  there is one, what it finds under each keyword, in which
  order it lists its kinds, and which keywords it reports as
  duplicates. Without a registry, the first extra kind that
  is refused says why.

  Key definitions include:
    * `Keywords.Admits`
    * `Keywords.reused`
    * `Registry.Builder.RegistersAll`

  Key theorems include:
    * `Registry.Builder.registerAll_cases`
    * `RegistrySettings.buildRegistry_cases`
    * `RegistrySettings.lookup_of_holds`
    * `RegistrySettings.registry_of_settings`
-/

namespace BlockScript

------------------------------------------------------------
-- Lists of Keywords
------------------------------------------------------------

namespace Keywords

/- A keyword that is not refused for its own sake. -/
def IsFit (keyword : String) : Prop :=
  keyword ≠ "" ∧ ∀ c ∈ keyword.toList, ¬ Unfit c

/-
  Keywords that can all be registered, in any order, where
  some are taken. Under rejection they must be new.
-/
structure Admits
    (taken : List String)
    (policy : DuplicatePolicy)
    (keywords : List String) : Prop where
  fit : ∀ keyword ∈ keywords, IsFit keyword
  distinct : policy = .reject → keywords.Nodup
  new :
    policy = .reject → ∀ keyword ∈ keywords, keyword ∉ taken

/-
  Each keyword that is taken when it comes, be it from before
  or by one that came earlier.
-/
def reused (taken : List String) : List String → List String
  | [] => []
  | keyword :: keywords =>
      (if keyword ∈ taken then [keyword] else [])
        ++ reused (taken ++ [keyword]) keywords

end Keywords

/- A keyword is refused for itself, or because it is taken. -/
theorem Registry.exists_refusal_iff
    {taken : List String}
    {policy : DuplicatePolicy}
    {keyword : String} :
    (∃ e, Refusal taken policy keyword e)
      ↔ ¬ (Keywords.IsFit keyword
            ∧ (policy = .reject → keyword ∉ taken)) := by
  constructor
  · rintro ⟨e, hRefusal⟩ ⟨⟨hSome, hFit⟩, hNew⟩
    cases hRefusal with
    | empty hEmpty => exact hSome hEmpty
    | invalid hHolds hUnfit => exact hFit _ hHolds hUnfit
    | duplicate _ _ hTaken hPolicy => exact hNew hPolicy hTaken
  · intro hNot
    by_cases hEmpty : keyword = ""
    · exact ⟨_, .empty hEmpty⟩
    · by_cases hAny : ∃ c ∈ keyword.toList, Keywords.Unfit c
      · rcases hAny with ⟨c, hHolds, hUnfit⟩
        exact ⟨_, .invalid hHolds hUnfit⟩
      · have hFit : ∀ c ∈ keyword.toList, ¬ Keywords.Unfit c :=
          fun c hHolds hUnfit => hAny ⟨c, hHolds, hUnfit⟩
        have hTaken :
            ¬ (policy = .reject → keyword ∉ taken) :=
          fun hNew => hNot ⟨⟨hEmpty, hFit⟩, hNew⟩
        rw [Classical.not_imp, not_not] at hTaken
        exact ⟨_, .duplicate hEmpty hFit hTaken.2 hTaken.1⟩

namespace Keywords

variable {taken keywords : List String}
variable {policy : DuplicatePolicy}
variable {keyword : String}

theorem Admits.nil : Admits taken policy [] :=
  ⟨by simp, fun _ => .nil, by simp⟩

/-
  The first keyword must not be refused, and the others not
  once it is taken.
-/
theorem admits_cons_iff :
    Admits taken policy (keyword :: keywords)
      ↔ (¬ ∃ e, Registry.Refusal taken policy keyword e)
        ∧ Admits (taken ++ [keyword]) policy keywords := by
  rw [Registry.exists_refusal_iff, not_not]
  constructor
  · rintro ⟨hFit, hDistinct, hNew⟩
    have hFirst := List.mem_cons_self (a := keyword) (l := keywords)
    refine ⟨⟨hFit _ hFirst, fun h => hNew h _ hFirst⟩, ?_, ?_, ?_⟩
    · intro other hOther
      exact hFit other (List.mem_cons_of_mem _ hOther)
    · intro hPolicy
      exact (List.nodup_cons.mp (hDistinct hPolicy)).2
    · intro hPolicy other hOther hThere
      have hSeen := (List.nodup_cons.mp (hDistinct hPolicy)).1
      rcases List.mem_append.mp hThere with hTaken | hSame
      · exact hNew hPolicy other
          (List.mem_cons_of_mem _ hOther) hTaken
      · rw [List.mem_singleton.mp hSame] at hOther
        exact hSeen hOther
  · rintro ⟨⟨hFirst, hFree⟩, hFit, hDistinct, hNew⟩
    refine ⟨?_, ?_, ?_⟩
    · exact List.forall_mem_cons.mpr ⟨hFirst, hFit⟩
    · intro hPolicy
      rw [List.nodup_cons]
      refine ⟨fun hOther => ?_, hDistinct hPolicy⟩
      exact hNew hPolicy keyword hOther (by simp)
    · intro hPolicy
      refine List.forall_mem_cons.mpr ⟨hFree hPolicy, ?_⟩
      intro other hOther hTaken
      exact hNew hPolicy other hOther
        (List.mem_append_left _ hTaken)

/- Behind keywords that are admitted, a refusal ends it. -/
theorem not_admits_of_refusal
    {e : RegistryError}
    (hRefusal :
      Registry.Refusal (taken ++ keywords) policy keyword e) :
    ¬ Admits taken policy (keywords ++ [keyword]) := by
  induction keywords generalizing taken with
  | nil =>
      rw [List.append_nil] at hRefusal
      rw [List.nil_append, admits_cons_iff]
      exact fun hAdmits => hAdmits.1 ⟨e, hRefusal⟩
  | cons first keywords ih =>
      rw [List.cons_append, admits_cons_iff]
      rw [← List.singleton_append, ← List.append_assoc] at hRefusal
      exact fun hAdmits => ih hRefusal hAdmits.2

/- What is repeated in a longer list is reused. -/
theorem repeats_append
    (taken keywords : List String) :
    repeats (taken ++ keywords)
      = repeats taken ++ reused taken keywords := by
  induction keywords generalizing taken with
  | nil => simp [reused]
  | cons keyword keywords ih =>
      rw [← List.singleton_append, ← List.append_assoc, ih,
        repeats_concat, List.append_assoc]
      rfl

theorem repeats_of_nodup
    (hNodup : keywords.Nodup) :
    repeats keywords = [] := by
  induction keywords using List.reverseRecOn with
  | nil => rfl
  | append_singleton keywords keyword ih =>
      rw [← List.concat_eq_append, List.nodup_concat] at hNodup
      rw [repeats_concat, ih hNodup.2, if_neg hNodup.1]
      rfl

theorem eraseDups_of_nodup
    (hNodup : keywords.Nodup) :
    keywords.eraseDups = keywords := by
  induction keywords using List.reverseRecOn with
  | nil => rfl
  | append_singleton keywords keyword ih =>
      rw [← List.concat_eq_append, List.nodup_concat] at hNodup
      rw [eraseDups_concat, ih hNodup.2, if_neg hNodup.1]

/-
  A keyword is reused each time that it comes, except for the
  first time if it was not taken from before.
-/
theorem count_reused
    (taken keywords : List String)
    (keyword : String) :
    (reused taken keywords).count keyword
      = keywords.count keyword
          - if keyword ∈ taken then 0 else 1 := by
  induction keywords generalizing taken with
  | nil => simp [reused]
  | cons first keywords ih =>
      rw [reused, List.count_append, ih, List.count_cons]
      by_cases hSame : first = keyword
      · subst hSame
        by_cases hTaken : first ∈ taken <;>
          simp [hTaken, Nat.add_comm]
      · have hOther : keyword ≠ first := fun h => hSame h.symm
        by_cases hTaken : first ∈ taken <;>
          simp [hTaken, hSame, hOther]

end Keywords

------------------------------------------------------------
-- Lists of Kinds
------------------------------------------------------------

namespace Registry.Builder

/-
  What can come of kinds that are registered in order, after
  those accepted before: all of them are accepted, or one is
  refused first.
-/
inductive RegistersAll
    (accepted : List BlockKind)
    (policy : DuplicatePolicy)
    (kinds : List BlockKind) :
    Except RegistryError Builder → Prop where
  | accepted
      {b : Builder}
      (hAdmits :
        Keywords.Admits (accepted.map BlockKind.keyword) policy
          (kinds.map BlockKind.keyword))
      (hHolds : b.registry.Holds (accepted ++ kinds))
      (hPolicy : b.policy = policy) :
      RegistersAll accepted policy kinds (.ok b)
  | refused
      {before after : List BlockKind}
      {kind : BlockKind}
      {e : RegistryError}
      (hKinds : kinds = before ++ kind :: after)
      (hAdmits :
        Keywords.Admits (accepted.map BlockKind.keyword) policy
          (before.map BlockKind.keyword))
      (hRefusal :
        Refusal ((accepted ++ before).map BlockKind.keyword) policy
          kind.keyword e) :
      RegistersAll accepted policy kinds (.error e)

/- Kinds are registered up to the first that is refused. -/
theorem registerAll_cases
    {b : Builder}
    {accepted : List BlockKind}
    (kinds : List BlockKind)
    (hHolds : b.registry.Holds accepted) :
    RegistersAll accepted b.policy kinds (b.registerAll kinds) := by
  induction kinds generalizing b accepted with
  | nil =>
      refine .accepted .nil ?_ rfl
      rwa [List.append_nil]
  | cons kind kinds ih =>
      rw [registerAll, List.foldlM_cons]
      rcases hFirst : b.register kind with e | b'
      · have hError := register_eq_error_iff.mp hFirst
        have hRefusal := (refusal_accepted_iff hHolds).mp hError
        have hHere : kind :: kinds = [] ++ kind :: kinds := rfl
        refine .refused hHere .nil ?_
        rwa [List.append_nil]
      · have hFree :
            ¬ ∃ e,
              Refusal (accepted.map BlockKind.keyword) b.policy
                kind.keyword e := by
          rintro ⟨e, hRefusal⟩
          have hError := (refusal_accepted_iff hHolds).mpr hRefusal
          rw [register_eq_error_iff.mpr hError] at hFirst
          cases hFirst
        have hCall := register_eq_ok_iff.mp hFirst
        have hMore :=
          holds_of_register hHolds (congrArg Prod.fst hCall)
        have hPolicy := b.policy_register kind
        rw [hCall] at hMore hPolicy
        have hRest := ih hMore
        rw [hPolicy, registerAll] at hRest
        change RegistersAll accepted b.policy (kind :: kinds)
          (kinds.foldlM register b')
        generalize kinds.foldlM register b' = x at hRest ⊢
        cases hRest with
        | accepted hAdmits hHolds hSame =>
            rw [List.map_append] at hAdmits
            rw [List.append_assoc] at hHolds
            exact .accepted
              (Keywords.admits_cons_iff.mpr ⟨hFree, hAdmits⟩)
              hHolds hSame
        | @refused before after other _ hKinds hAdmits hRefusal =>
            rw [List.map_append] at hAdmits
            rw [List.append_assoc] at hRefusal
            have hLater :
                kind :: kinds
                  = (kind :: before) ++ other :: after := by
              rw [hKinds, List.cons_append]
            exact .refused hLater
              (Keywords.admits_cons_iff.mpr ⟨hFree, hAdmits⟩)
              hRefusal

end Registry.Builder

------------------------------------------------------------
-- Standard Kinds
------------------------------------------------------------

/- The standard keywords are distinct and all fit. -/
theorem admits_standard
    (policy : DuplicatePolicy) :
    Keywords.Admits [] policy
      (standardKinds.map BlockKind.keyword) := by
  have hFit :
      standardKinds.all (fun kind =>
        kind.keyword != ""
          && kind.keyword.toList.all (!isDelimiter ·)) = true := by
    decide
  refine ⟨?_, fun _ => by decide, by simp⟩
  intro keyword hKeyword
  rcases List.mem_map.mp hKeyword with ⟨kind, hKind, rfl⟩
  have hThis := List.all_eq_true.mp hFit kind hKind
  simpa [Keywords.IsFit, Keywords.unfit_iff] using hThis

/- Fewer keywords in the same order are admitted as well. -/
theorem Keywords.Admits.sublist
    {taken keywords fewer : List String}
    {policy : DuplicatePolicy}
    (hAdmits : Admits taken policy keywords)
    (hFewer : fewer.Sublist keywords) :
    Admits taken policy fewer where
  fit _ hKeyword := hAdmits.fit _ (hFewer.mem hKeyword)
  distinct hPolicy := (hAdmits.distinct hPolicy).sublist hFewer
  new hPolicy _ hKeyword :=
    hAdmits.new hPolicy _ (hFewer.mem hKeyword)

/- Of distinct keywords, the last kind is also the first. -/
theorem findRev?_of_nodup
    {kinds : List BlockKind}
    (keyword : String)
    (hNodup : (kinds.map BlockKind.keyword).Nodup) :
    kinds.findRev? (·.keyword == keyword)
      = kinds.find? (·.keyword == keyword) := by
  rw [List.findRev?_eq_find?_reverse]
  rcases hFirst : kinds.find? (·.keyword == keyword) with _ | kind
  · rw [hFirst, List.find?_eq_none]
    intro kind hKind
    exact List.find?_eq_none.mp hFirst kind
      (List.mem_reverse.mp hKind)
  · have hThere := List.mem_of_find?_eq_some hFirst
    have hKeyword : kind.keyword = keyword := by
      simpa using List.find?_some hFirst
    rcases hLast : kinds.reverse.find? (·.keyword == keyword)
      with _ | last
    · rw [List.find?_eq_none] at hLast
      exact absurd (by simpa using hKeyword)
        (hLast kind (List.mem_reverse.mpr hThere))
    · have hOther := List.mem_of_find?_eq_some hLast
      have hSame : last.keyword = keyword := by
        simpa using List.find?_some hLast
      rw [hLast, hFirst, List.inj_on_of_nodup_map hNodup
        (List.mem_reverse.mp hOther) hThere
        (hSame.trans hKeyword.symm)]

/- The standard registry holds the standard kinds. -/
theorem Registry.holds_standard :
    Registry.standard.Holds standardKinds := by
  rcases registerAll_standard with ⟨b, hAll, hBuilt⟩
  have hCases :=
    Builder.registerAll_cases (b := {}) standardKinds .nil
  rw [hAll] at hCases
  rw [← hBuilt]
  cases hCases with
  | accepted _ hHolds _ => exact hHolds

/- Each of them is found by its keyword. -/
theorem Registry.lookup_standard
    (keyword : String) :
    Registry.standard.lookup keyword
      = standardKinds.find? (·.keyword == keyword) := by
  rw [holds_standard.lookup]
  exact findRev?_of_nodup keyword
    ((admits_standard .reject).distinct rfl)

------------------------------------------------------------
-- Settings
------------------------------------------------------------

namespace RegistrySettings

/- The keywords of the standard kinds that are not disabled. -/
def enabledKeywords (s : RegistrySettings) : List String :=
  s.enabledKinds.map BlockKind.keyword

/-
  Extra kinds that can be registered after the enabled kinds:
  their keywords are fit and, under rejection, distinct and
  not those of enabled kinds.
-/
def Admits
    (s : RegistrySettings)
    (extraKinds : List ExtraKind) : Prop :=
  Keywords.Admits s.enabledKeywords s.duplicatePolicy
    (extraKinds.map ExtraKind.keyword)

/- What can come of settings. -/
inductive Builds
    (s : RegistrySettings) :
    Except RegistryError Registry → Prop where
  | built
      {r : Registry}
      (hAdmits : s.Admits s.extraKinds)
      (hHolds :
        r.Holds
          (s.enabledKinds ++ s.extraKinds.map ExtraKind.blockKind)) :
      Builds s (.ok r)
  | refused
      {before after : List ExtraKind}
      {x : ExtraKind}
      {e : RegistryError}
      (hKinds : s.extraKinds = before ++ x :: after)
      (hAdmits : s.Admits before)
      (hRefusal :
        Registry.Refusal
          (s.enabledKeywords ++ before.map ExtraKind.keyword)
          s.duplicatePolicy x.keyword e) :
      Builds s (.error e)

variable {s : RegistrySettings}

theorem enabledKeywords_sublist
    (s : RegistrySettings) :
    s.enabledKeywords.Sublist
      (standardKinds.map BlockKind.keyword) :=
  List.filter_sublist.map _

theorem nodup_enabledKeywords
    (s : RegistrySettings) :
    s.enabledKeywords.Nodup :=
  ((admits_standard .reject).distinct rfl).sublist
    s.enabledKeywords_sublist

theorem mem_enabledKeywords_iff
    {keyword : String} :
    keyword ∈ s.enabledKeywords
      ↔ keyword ∈ standardKinds.map BlockKind.keyword
        ∧ keyword ∉ s.disabledKinds := by
  simp only [enabledKeywords, enabledKinds, List.mem_map,
    List.mem_filter, Bool.not_eq_true', List.contains_eq_mem,
    decide_eq_false_iff_not]
  constructor
  · rintro ⟨kind, ⟨hKind, hEnabled⟩, rfl⟩
    exact ⟨⟨kind, hKind, rfl⟩, hEnabled⟩
  · rintro ⟨⟨kind, hKind, rfl⟩, hEnabled⟩
    exact ⟨kind, ⟨hKind, hEnabled⟩, rfl⟩

/- An extra kind is found, or a later one with its keyword. -/
theorem findRev?_of_mem
    {extraKinds : List ExtraKind}
    {x : ExtraKind}
    (hExtra : x ∈ extraKinds) :
    ∃ y ∈ extraKinds,
      y.keyword = x.keyword
        ∧ extraKinds.findRev? (·.keyword == x.keyword) = some y := by
  rw [List.findRev?_eq_find?_reverse]
  have hSome :
      (extraKinds.reverse.find?
        (·.keyword == x.keyword)).isSome := by
    rw [List.find?_isSome]
    exact ⟨x, List.mem_reverse.mpr hExtra, by simp⟩
  rcases Option.isSome_iff_exists.mp hSome with ⟨y, hLast⟩
  have hThere := List.mem_of_find?_eq_some hLast
  refine ⟨y, List.mem_reverse.mp hThere, ?_, hLast⟩
  simpa using List.find?_some hLast

theorem map_keyword_blockKind
    (extraKinds : List ExtraKind) :
    (extraKinds.map ExtraKind.blockKind).map BlockKind.keyword
      = extraKinds.map ExtraKind.keyword := by
  rw [List.map_map]
  rfl

/- The enabled kinds are all accepted. -/
theorem registerAll_enabled
    (s : RegistrySettings) :
    ∃ b : Registry.Builder,
      Registry.Builder.registerAll { policy := s.duplicatePolicy }
          s.enabledKinds
        = .ok b
        ∧ b.registry.Holds s.enabledKinds
        ∧ b.policy = s.duplicatePolicy := by
  have hAdmits :=
    (admits_standard s.duplicatePolicy).sublist
      s.enabledKeywords_sublist
  have hCases :=
    Registry.Builder.registerAll_cases
      (b := { policy := s.duplicatePolicy }) s.enabledKinds .nil
  generalize Registry.Builder.registerAll
    { policy := s.duplicatePolicy } s.enabledKinds = x at hCases ⊢
  cases hCases with
  | accepted _ hHolds hPolicy => exact ⟨_, rfl, hHolds, hPolicy⟩
  | @refused before after kind _ hKinds _ hRefusal =>
      have hPrefix :
          (before.map BlockKind.keyword ++ [kind.keyword]).Sublist
            s.enabledKeywords := by
        simp [enabledKeywords, hKinds]
      exact absurd (hAdmits.sublist hPrefix)
        (Keywords.not_admits_of_refusal hRefusal)

/- Settings give a registry, or an extra kind is refused. -/
theorem buildRegistry_cases
    (s : RegistrySettings) :
    s.Builds s.buildRegistry := by
  rcases s.registerAll_enabled with ⟨b, hEnabled, hHolds, hPolicy⟩
  have hCases :=
    Registry.Builder.registerAll_cases
      (s.extraKinds.map ExtraKind.blockKind) hHolds
  have hAll :
      Registry.Builder.registerAll { policy := s.duplicatePolicy }
          (s.enabledKinds ++ s.extraKinds.map ExtraKind.blockKind)
        = b.registerAll (s.extraKinds.map ExtraKind.blockKind) := by
    rw [Registry.Builder.registerAll, List.foldlM_append,
      ← Registry.Builder.registerAll, hEnabled]
    rfl
  unfold buildRegistry
  simp only [hAll]
  generalize b.registerAll (s.extraKinds.map ExtraKind.blockKind)
    = x at hCases ⊢
  rw [hPolicy] at hCases
  cases hCases with
  | accepted hAdmits hHolds _ =>
      rw [map_keyword_blockKind] at hAdmits
      exact .built hAdmits hHolds
  | refused hKinds hAdmits hRefusal =>
      rcases List.map_eq_append_iff.mp hKinds with
        ⟨before, rest, hExtra, rfl, hRest⟩
      rcases List.map_eq_cons_iff.mp hRest with
        ⟨x, after, rfl, rfl, -⟩
      rw [map_keyword_blockKind] at hAdmits
      rw [List.map_append, map_keyword_blockKind] at hRefusal
      exact .refused hExtra hAdmits hRefusal

/- An enabled kind is the standard kind with its keyword. -/
theorem find?_enabledKinds
    (s : RegistrySettings)
    (keyword : String) :
    s.enabledKinds.find? (·.keyword == keyword)
      = if keyword ∈ s.disabledKinds then
          none
        else
          Registry.standard.lookup keyword := by
  rw [enabledKinds, List.find?_filter]
  split
  · rename_i hDisabled
    rw [List.find?_eq_none]
    intro kind _ hFound
    simp only [Bool.not_eq_true', List.contains_eq_mem,
      decide_eq_false_iff_not, beq_iff_eq, decide_eq_true_eq]
      at hFound
    rw [hFound.2] at hFound
    exact hFound.1 hDisabled
  · rename_i hEnabled
    rw [Registry.lookup_standard]
    congr 1
    funext kind
    by_cases hSame : kind.keyword = keyword
    · simp [hSame, hEnabled]
    · simp [hSame]

section Holding

variable {r : Registry}
variable
  (hHolds :
    r.Holds
      (s.enabledKinds ++ s.extraKinds.map ExtraKind.blockKind))

include hHolds

/-
  A keyword is found with the last extra kind that has it, or
  else with its standard kind unless this is disabled.
-/
theorem lookup_of_holds
    (keyword : String) :
    r.lookup keyword
      = ((s.extraKinds.findRev? (·.keyword == keyword)).map
            ExtraKind.blockKind).or
          (if keyword ∈ s.disabledKinds then
            none
          else
            Registry.standard.lookup keyword) := by
  rw [hHolds.lookup, ← find?_enabledKinds,
    ← findRev?_of_nodup keyword s.nodup_enabledKeywords]
  simp only [List.findRev?_eq_find?_reverse, List.reverse_append,
    List.find?_append, ← List.map_reverse, List.find?_map]
  rfl

/-
  Enabled keywords are listed in their order, and then those
  that extra kinds add, in the order in which they come first.
-/
theorem keywords_of_holds :
    r.kinds.map BlockKind.keyword
      = s.enabledKeywords
          ++ ((s.extraKinds.map ExtraKind.keyword).filter
                (!s.enabledKeywords.contains ·)).eraseDups := by
  rw [hHolds.coherent.map_kinds, hHolds.order, List.map_append,
    map_keyword_blockKind, ← enabledKeywords,
    List.eraseDups_append,
    Keywords.eraseDups_of_nodup s.nodup_enabledKeywords]
  rfl

/-
  The duplicates are the keywords of extra kinds that an
  enabled kind or an earlier extra kind has.
-/
theorem duplicates_of_holds :
    r.duplicates
      = Keywords.reused s.enabledKeywords
          (s.extraKinds.map ExtraKind.keyword) := by
  rw [hHolds.duplicates, List.map_append, map_keyword_blockKind,
    ← enabledKeywords, Keywords.repeats_append,
    Keywords.repeats_of_nodup s.nodup_enabledKeywords,
    List.nil_append]

end Holding

/-
  What settings ask for. There is a registry if and only if
  all extra kinds are admitted; otherwise the first extra kind
  that is not admitted says why. The registry finds the last
  extra kind with a keyword, or the standard kind if it is
  enabled; it lists each kind once, enabled keywords first;
  and it tells each extra kind whose keyword was taken. Being
  disabled makes no keyword taken, and hides no extra kind.
-/
theorem registry_of_settings
    (s : RegistrySettings) :
    ((∃ r, s.buildRegistry = .ok r) ↔ s.Admits s.extraKinds)
      ∧ (∀ e,
          s.buildRegistry = .error e →
            ∃ before x after,
              s.extraKinds = before ++ x :: after
                ∧ s.Admits before
                ∧ ¬ s.Admits (before ++ [x])
                ∧ Registry.Refusal
                    (s.enabledKeywords
                      ++ before.map ExtraKind.keyword)
                    s.duplicatePolicy x.keyword e)
      ∧ ∀ r,
          s.buildRegistry = .ok r →
            (∀ keyword,
                r.lookup keyword
                  = ((s.extraKinds.findRev?
                        (·.keyword == keyword)).map
                          ExtraKind.blockKind).or
                      (if keyword ∈ s.disabledKinds then
                        none
                      else
                        Registry.standard.lookup keyword))
              ∧ r.kinds.map BlockKind.keyword
                  = s.enabledKeywords
                      ++ ((s.extraKinds.map ExtraKind.keyword).filter
                            (!s.enabledKeywords.contains ·)).eraseDups
              ∧ (∀ kind ∈ r.kinds,
                  r.lookup kind.keyword = some kind)
              ∧ r.duplicates
                  = Keywords.reused s.enabledKeywords
                      (s.extraKinds.map ExtraKind.keyword)
              ∧ (∀ keyword ∈ s.disabledKinds,
                  r.duplicates.count keyword
                    = (s.extraKinds.map ExtraKind.keyword).count
                        keyword - 1)
              ∧ ∀ x ∈ s.extraKinds,
                  ∃ y ∈ s.extraKinds,
                    y.keyword = x.keyword
                      ∧ r.lookup x.keyword = some y.blockKind := by
  have hCases := s.buildRegistry_cases
  generalize s.buildRegistry = built at hCases ⊢
  cases hCases with
  | refused hKinds hAdmits hRefusal =>
      rename_i before after x e
      have hNot : ¬ s.Admits (before ++ [x]) := by
        unfold Admits
        rw [List.map_append]
        exact Keywords.not_admits_of_refusal hRefusal
      refine ⟨⟨?_, ?_⟩, ?_, ?_⟩
      · rintro ⟨r, hOk⟩
        cases hOk
      · intro hAll
        refine absurd (hAll.sublist ?_) hNot
        rw [hKinds]
        exact (List.Sublist.refl _ |>.append (by simp)).map _
      · rintro e' hError
        cases hError
        exact ⟨before, x, after, hKinds, hAdmits, hNot, hRefusal⟩
      · rintro r hOk
        cases hOk
  | built hAdmits hHolds =>
      refine ⟨⟨fun _ => hAdmits, fun _ => ⟨_, rfl⟩⟩, ?_, ?_⟩
      · rintro e hError
        cases hError
      · rintro r hOk
        cases hOk
        have hLookup := lookup_of_holds hHolds
        have hDuplicates := duplicates_of_holds hHolds
        refine ⟨hLookup, keywords_of_holds hHolds,
          fun kind hKind => hHolds.coherent.lookup_of_mem hKind,
          hDuplicates, ?_, ?_⟩
        · intro keyword hDisabled
          have hNew : keyword ∉ s.enabledKeywords :=
            fun h => (mem_enabledKeywords_iff.mp h).2 hDisabled
          rw [hDuplicates, Keywords.count_reused, if_neg hNew]
        · intro x hExtra
          rcases findRev?_of_mem hExtra with ⟨y, hy, hSame, hLast⟩
          refine ⟨y, hy, hSame, ?_⟩
          rw [hLookup, hLast]
          rfl

/-
  A disabled kind that comes back as an extra one is not a
  duplicate; a new kind is if it is given twice. It is an
  error only under the other policy.
-/
theorem registry_of_settings_disabled :
    let s : RegistrySettings :=
      { disabledKinds := ["tech"],
        extraKinds :=
          [ { keyword := "tech", named := false },
            { keyword := "rock" },
            { keyword := "rock", named := false } ] }
    (∃ r,
        s.buildRegistry = .ok r
          ∧ r.lookup "tech"
              = some
                  { keyword := "tech",
                    named := false,
                    body := .unstructured }
          ∧ (r.lookup "rock").map BlockKind.named = some false
          ∧ r.duplicates = ["rock"])
      ∧ ∃ e,
          { s with duplicatePolicy := .reject }.buildRegistry
              = .error e
            ∧ ∃ before x after,
                s.extraKinds = before ++ x :: after
                  ∧ Registry.Refusal
                      (s.enabledKeywords
                        ++ before.map ExtraKind.keyword)
                      .reject x.keyword e := by
  intro s
  constructor
  · have hBuilt : ∃ r, s.buildRegistry = .ok r := ⟨_, rfl⟩
    rcases hBuilt with ⟨r, hBuilt⟩
    rcases (registry_of_settings s).2.2 r hBuilt with
      ⟨hLookup, -, -, hDuplicates, -, -⟩
    refine ⟨r, hBuilt, ?_, ?_, ?_⟩
    · rw [hLookup]
      rfl
    · rw [hLookup]
      rfl
    · rw [hDuplicates]
      decide
  · have hRefused :
        ∃ e,
          { s with duplicatePolicy := .reject }.buildRegistry
            = .error e :=
      ⟨_, rfl⟩
    rcases hRefused with ⟨e, hRefused⟩
    rcases (registry_of_settings _).2.1 e hRefused with
      ⟨before, x, after, hKinds, -, -, hRefusal⟩
    exact ⟨e, hRefused, before, x, after, hKinds, hRefusal⟩

end RegistrySettings
end BlockScript
