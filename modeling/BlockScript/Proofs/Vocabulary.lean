import BlockScript.Proofs.Configuration
import BlockScript.Proofs.Origins

/-
  This file shows that a script depends on the kinds of its
  own words only. A registry is asked about identifiers of
  the script and about nothing else, so that kinds with other
  keywords may come, go or change places.

  Key definitions include:
    * `Token.identifiers`
    * `Registry.AgreeOn`
    * `Registry.Builder.Call.concerns`

  Key theorems include:
    * `Registry.readItem_congr`
    * `Registry.readItems_congr`
    * `Registry.Builder.Session.agreeOn_ofCalls`
    * `RegistrySettings.agreeOn_of_settings`
    * `Script.parse_of_identifiers`
-/

namespace BlockScript

------------------------------------------------------------
-- Agreement
------------------------------------------------------------

/- The texts of the identifiers among some tokens. -/
def Token.identifiers (ts : List Token) : List String :=
  (ts.filter (·.kind == .ident)).map Token.text

theorem Token.mem_identifiers
    {ts : List Token}
    {t : Token}
    (hToken : t ∈ ts)
    (hKind : t.kind = .ident) :
    t.text ∈ identifiers ts := by
  refine List.mem_map_of_mem (List.mem_filter.mpr ⟨hToken, ?_⟩)
  simp [hKind]

/- Tokens that are left have no new identifiers. -/
theorem Token.identifiers_subset
    {ts ts' : List Token}
    (hSuffix : ts' <:+ ts) :
    identifiers ts' ⊆ identifiers ts :=
  ((hSuffix.sublist.filter _).map _).subset

namespace Registry

/- Registries that find the same kinds under some words. -/
def AgreeOn
    (r r' : Registry)
    (words : List String) : Prop :=
  ∀ word ∈ words, r.lookup word = r'.lookup word

namespace AgreeOn

variable {r r' r'' : Registry}
variable {words words' : List String}

theorem mono
    (hAgree : r.AgreeOn r' words)
    (hFewer : words' ⊆ words) :
    r.AgreeOn r' words' :=
  fun word hWord => hAgree word (hFewer hWord)

theorem symm
    (hAgree : r.AgreeOn r' words) :
    r'.AgreeOn r words :=
  fun word hWord => (hAgree word hWord).symm

theorem trans
    (hFirst : r.AgreeOn r' words)
    (hSecond : r'.AgreeOn r'' words) :
    r.AgreeOn r'' words :=
  fun word hWord => (hFirst word hWord).trans (hSecond word hWord)

/- They have kinds for the same of these words. -/
theorem contains_eq
    {word : String}
    (hAgree : r.AgreeOn r' words)
    (hWord : word ∈ words) :
    r.contains word = r'.contains word := by
  rw [contains, contains, hAgree word hWord]

end AgreeOn

------------------------------------------------------------
-- Reading with Registries That Agree
------------------------------------------------------------

variable {r r' : Registry}

/- Whether a token is taken for a name depends on its text. -/
theorem isUnknownName_congr
    {t : Token}
    (hAgree : r.AgreeOn r' (Token.identifiers [t])) :
    r.isUnknownName t = r'.isUnknownName t := by
  unfold isUnknownName
  split
  · rename_i hKind
    rw [hAgree.contains_eq
      (Token.mem_identifiers (List.mem_singleton_self t) hKind)]
  · rfl
  · rfl
  · rfl

/- Only the next token may be looked up for a name. -/
theorem passUnknown_congr
    {c : Cursor}
    (hAgree : r.AgreeOn r' (Token.identifiers c.tokens)) :
    r.passUnknown c = r'.passUnknown c := by
  have hNext := c.peek_fst
  unfold passUnknown
  rcases hPeek : c.peek with ⟨_ | t, d⟩
  · rfl
  · rw [hPeek, eq_comm] at hNext
    rcases List.head?_eq_some_iff.mp hNext with ⟨rest, hTokens⟩
    have hFirst :
        Token.identifiers [t] ⊆ Token.identifiers c.tokens := by
      rw [hTokens]
      exact ((List.singleton_sublist.mpr
        List.mem_cons_self).filter _ |>.map _).subset
    simp only [isUnknownName_congr (hAgree.mono hFirst)]

/-
  An item is looked up under its keyword, and under a name if
  the keyword has no kind.
-/
theorem readItem_congr
    {t : Token}
    {c : Cursor}
    (hAgree : r.AgreeOn r' (Token.identifiers (t :: c.tokens))) :
    r.readItem t c = r'.readItem t c := by
  have hRest : r.AgreeOn r' (Token.identifiers c.tokens) :=
    hAgree.mono (Token.identifiers_subset (List.suffix_cons t _))
  unfold readItem
  by_cases hKind : t.kind = .ident
  · have hKeyword :=
      hAgree t.text (Token.mem_identifiers List.mem_cons_self hKind)
    rw [if_pos hKind, if_pos hKind, hKeyword]
    split
    · rfl
    · exact congrArg (Prod.mk none) (passUnknown_congr hRest)
  · rw [if_neg hKind, if_neg hKind]

/-
  No item leaves tokens that were not there, so that items
  further on are read alike as well.
-/
theorem readItems_congr
    {c : Cursor}
    (blocks : List Block)
    (hAgree : r.AgreeOn r' (Token.identifiers c.tokens)) :
    r.readItems blocks c = r'.readItems blocks c := by
  fun_induction readItems r blocks c with
  | case1 blocks c d hNext =>
      rw [readItems_of_none r' blocks hNext]
  | case2 blocks c t d hNext item ih =>
      have hFirst := c.next_fst
      have hRest := c.tokens_next
      rw [hNext] at hFirst hRest
      rcases List.head?_eq_some_iff.mp hFirst.symm with
        ⟨rest, hTokens⟩
      rw [hTokens, List.tail_cons] at hRest
      have hHere : r.readItem t d = r'.readItem t d := by
        apply readItem_congr
        rwa [hRest, ← hTokens]
      have hLeft : item.2.tokens <:+ c.tokens := by
        rw [hTokens, ← hRest]
        exact (reaches_readItem r t d).tokens_suffix.trans
          (List.suffix_cons t _)
      rw [ih (hAgree.mono (Token.identifiers_subset hLeft)),
        readItems_of_some r' blocks hNext, ← hHere]

------------------------------------------------------------
-- Building Registries That Agree
------------------------------------------------------------

namespace Builder

/- Builders that do the same with kinds under some words. -/
structure AgreeOn
    (b b' : Builder)
    (words : List String) : Prop where
  policy : b.policy = b'.policy
  registry : b.registry.AgreeOn b'.registry words

/- Builders that agree on a keyword refuse it alike. -/
theorem AgreeOn.register_error
    {b b' : Builder}
    {words : List String}
    {kind : BlockKind}
    {e : RegistryError}
    (hAgree : b.AgreeOn b' words)
    (hWord : kind.keyword ∈ words)
    (hError : (b.registerInPlace kind).1 = .error e) :
    (b'.registerInPlace kind).1 = .error e := by
  rw [refusal_iff, ← hAgree.policy]
  refine (refusal_iff.mp hError).of_taken ?_
  have hSame := hAgree.registry.contains_eq hWord
  rw [← KindTable.contains_iff, ← KindTable.contains_iff]
  exact hSame.symm.trans

/- After the same kind they agree again. -/
theorem AgreeOn.register
    {b b' : Builder}
    {words : List String}
    {kind : BlockKind}
    (hAgree : b.AgreeOn b' words)
    (hWord : kind.keyword ∈ words) :
    (b.registerInPlace kind).2.AgreeOn
      (b'.registerInPlace kind).2 words := by
  have hBack : b'.AgreeOn b words :=
    ⟨hAgree.policy.symm, hAgree.registry.symm⟩
  rcases hLeft : (b.registerInPlace kind).1 with e | ⟨⟩
  · rw [unchanged_of_error hLeft,
      unchanged_of_error (hAgree.register_error hWord hLeft)]
    exact hAgree
  · rcases hRight : (b'.registerInPlace kind).1 with e | ⟨⟩
    · have hOther := hBack.register_error hWord hRight
      rw [hLeft] at hOther
      cases hOther
    · refine ⟨?_, ?_⟩
      · rw [policy_register, policy_register, hAgree.policy]
      · intro word hThere
        rw [lookup_register hLeft, lookup_register hRight,
          hAgree.registry word hThere]

/- A kind with another keyword makes no difference. -/
theorem agreeOn_of_register
    {words : List String}
    {kind : BlockKind}
    (b : Builder)
    (hOther : kind.keyword ∉ words) :
    (b.registerInPlace kind).2.AgreeOn b words := by
  rcases hReply : (b.registerInPlace kind).1 with e | ⟨⟩
  · rw [unchanged_of_error hReply]
    exact ⟨rfl, fun _ _ => rfl⟩
  · refine ⟨policy_register b kind, ?_⟩
    intro word hWord
    have hNot : kind.keyword ≠ word := by
      rintro rfl
      exact hOther hWord
    rw [lookup_register hReply, if_neg hNot]

/-
  Whether a call has to do with some words. What happens to
  duplicates concerns any of them.
-/
def Call.concerns
    (words : List String) : Call → Bool
  | register kind => words.contains kind.keyword
  | withPolicy _ => true

namespace Session

variable {s s' : Session}
variable {words : List String}

/- The same call on both sides. -/
theorem agree_step
    (call : Call)
    (hAgree : s.builder.AgreeOn s'.builder words)
    (hConcerns : call.concerns words = true) :
    (s.step call).builder.AgreeOn (s'.step call).builder words := by
  cases call with
  | withPolicy policy => exact ⟨rfl, hAgree.registry⟩
  | register kind =>
      apply hAgree.register
      simpa [Call.concerns] using hConcerns

/- A call about other words, on the left only. -/
theorem agree_step_left
    (call : Call)
    (hAgree : s.builder.AgreeOn s'.builder words)
    (hConcerns : call.concerns words = false) :
    (s.step call).builder.AgreeOn s'.builder words := by
  cases call with
  | withPolicy policy => simp [Call.concerns] at hConcerns
  | register kind =>
      have hOther : kind.keyword ∉ words := by
        simpa [Call.concerns] using hConcerns
      have hSame := s.builder.agreeOn_of_register hOther
      exact ⟨hSame.policy.trans hAgree.policy,
        hSame.registry.trans hAgree.registry⟩

/- Calls about other words may be left out. -/
theorem agree_filter
    (calls : List Call)
    (words : List String) :
    (ofCalls calls).builder.AgreeOn
      (ofCalls (calls.filter (Call.concerns words))).builder
      words := by
  induction calls using List.reverseRecOn with
  | nil => exact ⟨rfl, fun _ _ => rfl⟩
  | append_singleton calls call ih =>
      rw [ofCalls_concat, List.filter_append]
      rcases hConcerns : call.concerns words with _ | _
      · rw [List.filter_singleton, hConcerns, cond_false,
          List.append_nil]
        exact agree_step_left call ih hConcerns
      · rw [List.filter_singleton, hConcerns, cond_true,
          ofCalls_concat]
        exact agree_step call ih hConcerns

/-
  Registries agree on the words that all differences between
  the calls are not about.
-/
theorem agreeOn_ofCalls
    {calls calls' : List Call}
    (hCalls :
      calls.filter (Call.concerns words)
        = calls'.filter (Call.concerns words)) :
    (ofCalls calls).builder.registry.AgreeOn
      (ofCalls calls').builder.registry words := by
  have hLeft := (agree_filter calls words).registry
  have hRight := (agree_filter calls' words).registry
  rw [hCalls] at hLeft
  exact hLeft.trans hRight.symm

end Session
end Builder
end Registry

------------------------------------------------------------
-- Settings That Agree
------------------------------------------------------------

namespace RegistrySettings

/- Extra kinds with other keywords are never found. -/
theorem findRev?_of_concerned
    {words : List String}
    {word : String}
    (extraKinds : List ExtraKind)
    (hWord : word ∈ words) :
    extraKinds.findRev? (·.keyword == word)
      = (extraKinds.filter (words.contains ·.keyword)).findRev?
          (·.keyword == word) := by
  simp only [List.findRev?_eq_find?_reverse, ← List.filter_reverse,
    List.find?_filter]
  congr 1
  funext x
  by_cases hSame : x.keyword = word
  · simp [hSame, hWord]
  · simp [hSame]

/- Settings that differ only in kinds with other keywords. -/
theorem agreeOn_of_settings
    {s s' : RegistrySettings}
    {r r' : Registry}
    {words : List String}
    (hBuilt : s.buildRegistry = .ok r)
    (hBuilt' : s'.buildRegistry = .ok r')
    (hExtra :
      s.extraKinds.filter (words.contains ·.keyword)
        = s'.extraKinds.filter (words.contains ·.keyword))
    (hDisabled :
      ∀ word ∈ words,
        word ∈ s.disabledKinds ↔ word ∈ s'.disabledKinds) :
    r.AgreeOn r' words := by
  have hCases := s.buildRegistry_cases
  have hCases' := s'.buildRegistry_cases
  rw [hBuilt] at hCases
  rw [hBuilt'] at hCases'
  cases hCases with
  | built _ hHolds =>
      cases hCases' with
      | built _ hHolds' =>
          intro word hWord
          rw [lookup_of_holds hHolds, lookup_of_holds hHolds',
            findRev?_of_concerned s.extraKinds hWord,
            findRev?_of_concerned s'.extraKinds hWord, hExtra]
          simp only [hDisabled word hWord]

end RegistrySettings

------------------------------------------------------------
-- Scripts
------------------------------------------------------------

namespace Script

open Registry.Builder (Call Session)

/- The identifiers of a script. -/
def identifiers (source : String) : List String :=
  Token.identifiers (tokenize source).1

/-
  What a script says depends on the kinds of its identifiers
  alone, whatever the bodies of these kinds do. So it is the
  same for registries built by calls that differ only in
  kinds with other keywords, which may be added, left out or
  put elsewhere, and for settings that differ only in extra
  and disabled kinds with other keywords.
-/
theorem parse_of_identifiers
    (source : String) :
    (∀ r r' : Registry,
        (∀ word ∈ identifiers source,
            r.lookup word = r'.lookup word) →
          parse r source = parse r' source)
      ∧ (∀ calls calls' : List Call,
          calls.filter (Call.concerns (identifiers source))
              = calls'.filter
                  (Call.concerns (identifiers source)) →
            parse (Session.ofCalls calls).builder.registry source
              = parse (Session.ofCalls calls').builder.registry
                  source)
      ∧ ∀ (s s' : RegistrySettings) (r r' : Registry),
          s.buildRegistry = .ok r →
            s'.buildRegistry = .ok r' →
              s.extraKinds.filter
                    ((identifiers source).contains ·.keyword)
                  = s'.extraKinds.filter
                      ((identifiers source).contains ·.keyword) →
                (∀ word ∈ identifiers source,
                    word ∈ s.disabledKinds
                      ↔ word ∈ s'.disabledKinds) →
                  parse r source = parse r' source := by
  have hParse :
      ∀ r r' : Registry,
        r.AgreeOn r' (identifiers source) →
          parse r source = parse r' source := by
    intro r r' hAgree
    have hTokens :
        (Cursor.ofSource source).tokens = (tokenize source).1 :=
      rfl
    simp only [parse, ofCursor]
    rw [Registry.readItems_congr]
    rwa [hTokens]
  refine ⟨hParse, ?_, ?_⟩
  · intro calls calls' hCalls
    exact hParse _ _ (Session.agreeOn_ofCalls hCalls)
  · intro s s' r r' hBuilt hBuilt' hExtra hDisabled
    exact hParse r r'
      (RegistrySettings.agreeOn_of_settings hBuilt hBuilt' hExtra
        hDisabled)

/-
  A script about a rock, with and without a kind for doors
  before it, and with the standard kinds and without physics.
-/
theorem parse_of_identifiers_rock :
    let source := "rock { } tech a"
    let rock := ExtraKind.blockKind { keyword := "rock" }
    let door := ExtraKind.blockKind { keyword := "door" }
    let fewer : RegistrySettings :=
      { disabledKinds := ["physics"],
        extraKinds := [{ keyword := "door" }] }
    identifiers source = ["rock", "tech", "a"]
      ∧ parse (Session.ofCalls
            [.register door, .register rock]).builder.registry source
          = parse (Session.ofCalls
              [.register rock]).builder.registry source
      ∧ ∃ r r',
          RegistrySettings.buildRegistry {} = .ok r
            ∧ fewer.buildRegistry = .ok r'
            ∧ (∀ word ∈ identifiers source,
                r.lookup word = r'.lookup word)
            ∧ parse r source = parse r' source := by
  intro source rock door fewer
  have hWords : identifiers source = ["rock", "tech", "a"] := by
    decide +kernel
  rcases parse_of_identifiers source with ⟨hLookups, hCalls, -⟩
  have hBuilt :
      ∃ r, RegistrySettings.buildRegistry {} = .ok r :=
    ⟨_, rfl⟩
  have hBuilt' : ∃ r', fewer.buildRegistry = .ok r' :=
    ⟨_, rfl⟩
  rcases hBuilt with ⟨r, hBuilt⟩
  rcases hBuilt' with ⟨r', hBuilt'⟩
  have hSame :
      ∀ word ∈ identifiers source,
        r.lookup word = r'.lookup word := by
    rw [hWords]
    apply RegistrySettings.agreeOn_of_settings hBuilt hBuilt'
    · rfl
    · decide
  refine ⟨hWords, hCalls _ _ ?_, r, r', hBuilt, hBuilt', hSame,
    hLookups r r' hSame⟩
  rw [hWords]
  rfl

end Script
end BlockScript
