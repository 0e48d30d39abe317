import BlockScript.Proofs.BlockStructure

/-
  This file defines the items that any tokens fall into:
  blocks, blocks without a kind, and stray tokens, each with
  the group in braces after it. It shows that tokens fall
  into items in one way.

  Key definitions include:
    * `Balanced`
    * `Braces`
    * `Item`
    * `Item.Fits`
    * `Splits`

  Key theorems include:
    * `splitBraces_complete`
    * `Item.eq_of_fits`
    * `Splits.unique`
-/

namespace BlockScript

------------------------------------------------------------
-- Balanced Tokens
------------------------------------------------------------

/- Tokens in which every brace has its partner. -/
inductive Balanced : List Token → Prop where
  | nil : Balanced []
  | plain
      {t : Token}
      {ts : List Token}
      (hLeft : t.kind ≠ .lBrace)
      (hRight : t.kind ≠ .rBrace)
      (hRest : Balanced ts) :
      Balanced (t :: ts)
  | nested
      {l r : Token}
      {inner ts : List Token}
      (hLeft : l.kind = .lBrace)
      (hInner : Balanced inner)
      (hRight : r.kind = .rBrace)
      (hRest : Balanced ts) :
      Balanced (l :: inner ++ r :: ts)

/-
  Split tokens after the first one that takes the nesting
  from `depth` to below `bodyDepth`.
-/
def splitClose
    (bodyDepth depth : Nat) :
    List Token → Option (List Token × List Token)
  | [] => none
  | t :: ts =>
      let after := Cursor.depthAfter depth t.kind
      if after < bodyDepth then
        some ([t], ts)
      else
        (splitClose bodyDepth after ts).map fun (front, back) =>
          (t :: front, back)

/- Only braces count for the nesting. -/
theorem depthAfter_plain
    {kind : TokenKind}
    (depth : Nat)
    (hLeft : kind ≠ .lBrace)
    (hRight : kind ≠ .rBrace) :
    Cursor.depthAfter depth kind = depth := by
  cases kind <;> simp_all [Cursor.depthAfter]

/- Balanced tokens leave the nesting as it is. -/
theorem Balanced.depth_eq
    {ts : List Token}
    (depth : Nat)
    (hBalanced : Balanced ts) :
    ts.foldl (fun d t => Cursor.depthAfter d t.kind) depth
      = depth := by
  induction hBalanced generalizing depth with
  | nil => rfl
  | plain hLeft hRight _ ih =>
      rw [List.foldl_cons, depthAfter_plain _ hLeft hRight, ih]
  | nested hLeft _ hRight _ ihInner ihRest =>
      rw [List.cons_append, List.foldl_cons, List.foldl_append,
        ihInner, List.foldl_cons, hLeft, hRight]
      exact ihRest depth

/- Balanced tokens are passed over. -/
theorem splitClose_append
    {bodyDepth depth : Nat}
    {inner : List Token}
    (ts : List Token)
    (hInner : Balanced inner)
    (hOpen : bodyDepth ≤ depth) :
    splitClose bodyDepth depth (inner ++ ts)
      = (splitClose bodyDepth depth ts).map fun (front, back) =>
          (inner ++ front, back) := by
  induction hInner generalizing depth ts with
  | nil => simp
  | plain hLeft hRight _ ih =>
      rw [List.cons_append, splitClose,
        depthAfter_plain depth hLeft hRight,
        if_neg (by omega), ih ts hOpen, Option.map_map]
      rfl
  | @nested l r inner rest hLeft _ hRight _ ihInner ihRest =>
      have hUp : Cursor.depthAfter depth l.kind = depth + 1 := by
        rw [hLeft]
        rfl
      have hDown :
          Cursor.depthAfter (depth + 1) r.kind = depth := by
        rw [hRight]
        rfl
      rw [List.cons_append, List.cons_append, splitClose, hUp,
        if_neg (by omega), List.append_assoc,
        ihInner _ (by omega), List.cons_append, splitClose,
        hDown, if_neg (by omega), ihRest ts hOpen]
      simp only [Option.map_map]
      congr 1
      funext p
      simp

/- After balanced tokens the next brace closes the body. -/
theorem splitClose_closed
    {bodyDepth : Nat}
    {inner : List Token}
    {r : Token}
    (rest : List Token)
    (hPositive : 0 < bodyDepth)
    (hInner : Balanced inner)
    (hRight : r.kind = .rBrace) :
    splitClose bodyDepth bodyDepth (inner ++ r :: rest)
      = some (inner ++ [r], rest) := by
  have hDown :
      Cursor.depthAfter bodyDepth r.kind = bodyDepth - 1 := by
    rw [hRight]
    rfl
  rw [splitClose_append _ hInner (Nat.le_refl _), splitClose,
    hDown, if_pos (by omega)]
  rfl

/- A token that does not close the body is passed over. -/
theorem splitClose_cons
    {bodyDepth depth : Nat}
    {t : Token}
    {ts front back : List Token}
    (hOpen : bodyDepth ≤ Cursor.depthAfter depth t.kind)
    (hSplit :
      splitClose bodyDepth depth (t :: ts) = some (front, back)) :
    ∃ first,
      front = t :: first
        ∧ splitClose bodyDepth
            (Cursor.depthAfter depth t.kind) ts
          = some (first, back) := by
  rw [splitClose] at hSplit
  simp only [Nat.not_lt.mpr hOpen, if_false,
    Option.map_eq_some_iff] at hSplit
  obtain ⟨⟨first, last⟩, hFirst, hPair⟩ := hSplit
  simp only [Prod.mk.injEq] at hPair
  exact ⟨first, hPair.1.symm, hPair.2 ▸ hFirst⟩

/-
  What closes a body begins with balanced tokens and a brace.
  With more than one level open, the rest closes the others.
-/
theorem splitClose_sound
    {bodyDepth : Nat}
    {ts front back : List Token}
    (levels : Nat)
    (hPositive : 0 < bodyDepth)
    (hSplit :
      splitClose bodyDepth (bodyDepth + levels) ts
        = some (front, back)) :
    ∃ inner r others,
      Balanced inner
        ∧ r.kind = .rBrace
        ∧ front = inner ++ r :: others
        ∧ ts = front ++ back
        ∧ (levels = 0 → others = [])
        ∧ (0 < levels →
            splitClose bodyDepth (bodyDepth + levels - 1)
                (others ++ back)
              = some (others, back)) := by
  generalize hLength : ts.length = n
  induction n using Nat.strongRecOn
    generalizing ts front levels with
  | ind n ih =>
      rcases ts with _ | ⟨t, ts⟩
      · simp [splitClose] at hSplit
      simp only [List.length_cons] at hLength
      by_cases hLeft : t.kind = .lBrace
      · -- One level more is open: what closes it, with its
        -- brace, is balanced again.
        have hUp :
            Cursor.depthAfter (bodyDepth + levels) t.kind
              = bodyDepth + (levels + 1) := by
          rw [hLeft]
          rfl
        obtain ⟨first, rfl, hFirst⟩ :=
          splitClose_cons (by omega) hSplit
        rw [hUp] at hFirst
        obtain ⟨inner, r, others, hInner, hRight, rfl,
          hTokens, -, hOthers⟩ :=
          ih ts.length (by omega) _ hFirst rfl
        have hShorter : (others ++ back).length < n := by
          rw [hTokens] at hLength
          simp only [List.length_append, List.length_cons]
            at hLength ⊢
          omega
        obtain ⟨inner', r', others', hInner', hRight',
          hFront, -, hNone, hLess⟩ :=
          ih _ hShorter levels
            (hOthers (Nat.succ_pos levels)) rfl
        refine ⟨t :: inner ++ r :: inner', r', others',
          .nested hLeft hInner hRight hInner', hRight',
          ?_, ?_, hNone, hLess⟩
        · simp [hFront]
        · simp [hTokens]
      by_cases hRight : t.kind = .rBrace
      · have hDown :
            Cursor.depthAfter (bodyDepth + levels) t.kind
              = bodyDepth + levels - 1 := by
          rw [hRight]
          rfl
        rcases levels with _ | levels
        · rw [splitClose, hDown] at hSplit
          simp only [show bodyDepth + 0 - 1 < bodyDepth by omega,
            if_true, Option.some.injEq, Prod.mk.injEq] at hSplit
          obtain ⟨rfl, rfl⟩ := hSplit
          exact ⟨[], t, [], .nil, hRight, rfl, rfl,
            fun _ => rfl, fun h => absurd h (by omega)⟩
        · obtain ⟨first, rfl, hFirst⟩ :=
            splitClose_cons (by omega) hSplit
          rw [hDown] at hFirst
          obtain ⟨_, _, _, _, _, _, hTokens, _⟩ :=
            ih ts.length (by omega) levels
              hFirst rfl
          refine ⟨[], t, first, .nil, hRight, rfl, ?_,
            fun h => absurd h (by omega), fun _ => ?_⟩
          · simp [hTokens]
          · rw [← hTokens]
            exact hFirst
      · have hSame :=
          depthAfter_plain (bodyDepth + levels) hLeft hRight
        obtain ⟨first, rfl, hFirst⟩ :=
          splitClose_cons (by omega) hSplit
        rw [hSame] at hFirst
        obtain ⟨inner, r, others, hInner, hBrace, rfl,
          hTokens, hNone, hLess⟩ :=
          ih ts.length (by omega) _ hFirst rfl
        refine ⟨t :: inner, r, others,
          .plain hLeft hRight hInner, hBrace, rfl, ?_,
          hNone, hLess⟩
        simp [hTokens]

/-
  What closes a body with no more levels open is balanced
  tokens and the brace.
-/
theorem splitClose_group
    {bodyDepth : Nat}
    {ts front back : List Token}
    (hPositive : 0 < bodyDepth)
    (hSplit :
      splitClose bodyDepth bodyDepth ts = some (front, back)) :
    ∃ inner r,
      Balanced inner
        ∧ r.kind = .rBrace
        ∧ front = inner ++ [r]
        ∧ ts = inner ++ r :: back := by
  obtain ⟨inner, r, others, hInner, hRight, rfl, hTokens,
    hNone, -⟩ :=
    splitClose_sound 0 hPositive hSplit
  obtain rfl := hNone rfl
  exact ⟨inner, r, hInner, hRight, rfl, by simp [hTokens]⟩

/- It is not closed if no brace comes after balanced tokens. -/
theorem splitClose_eq_none_iff
    {bodyDepth : Nat}
    {ts : List Token}
    (hPositive : 0 < bodyDepth) :
    splitClose bodyDepth bodyDepth ts = none
      ↔ ∀ front r back,
          ts = front ++ r :: back →
            Balanced front → r.kind ≠ .rBrace := by
  constructor
  · intro hNone front r back hTokens hInner hRight
    rw [hTokens, splitClose_closed back hPositive hInner hRight]
      at hNone
    simp at hNone
  · intro hOpen
    rcases hSplit : splitClose bodyDepth bodyDepth ts with
      _ | ⟨front, back⟩
    · rfl
    · obtain ⟨inner, r, hInner, hRight, -, hTokens⟩ :=
        splitClose_group hPositive hSplit
      exact absurd hRight (hOpen inner r back hTokens hInner)

------------------------------------------------------------
-- Groups in Braces
------------------------------------------------------------

/-
  A group in braces, or none. A group that is not closed goes
  on to the end of input.
-/
inductive Braces where
  | absent
  | closed (l : Token) (inner : List Token) (r : Token)
  | unclosed (l : Token) (inner : List Token)

namespace Braces

/- The tokens of a group. -/
def tokens : Braces → List Token
  | absent => []
  | closed l inner r => l :: inner ++ [r]
  | unclosed l inner => l :: inner

/- Whether a group has its closing brace. -/
def isClosed : Braces → Bool
  | closed _ _ _ => true
  | _ => false

/-
  The group that stands before `rest`. The brace that closes
  it is the partner of the one that opens it; a group is not
  closed if there is no partner.
-/
def Fits (rest : List Token) : Braces → Prop
  | absent => ∀ t, rest.head? = some t → t.kind ≠ .lBrace
  | closed l inner r =>
      l.kind = .lBrace ∧ Balanced inner ∧ r.kind = .rBrace
  | unclosed l inner =>
      l.kind = .lBrace
        ∧ rest = []
        ∧ ∀ front r back,
            inner = front ++ r :: back →
              Balanced front → r.kind ≠ .rBrace

end Braces

/- Split tokens after the group at their front, if any. -/
def splitBraces : List Token → Braces × List Token
  | [] => (.absent, [])
  | t :: ts =>
      if t.kind = .lBrace then
        match splitClose 1 1 ts with
        | some (front, back) =>
            (.closed t front.dropLast (front.getLastD t), back)
        | none => (.unclosed t ts, [])
      else
        (.absent, t :: ts)

/- There is a group, or none, before what is left. -/
theorem splitBraces_sound
    (ts : List Token) :
    (splitBraces ts).1.Fits (splitBraces ts).2
      ∧ (splitBraces ts).1.tokens ++ (splitBraces ts).2 = ts := by
  rcases ts with _ | ⟨t, ts⟩
  · simp [splitBraces, Braces.Fits, Braces.tokens]
  by_cases hLeft : t.kind = .lBrace
  · simp only [splitBraces, if_pos hLeft]
    rcases hSplit : splitClose 1 1 ts with _ | ⟨front, back⟩
    · have hOpen := (splitClose_eq_none_iff Nat.one_pos).mp hSplit
      exact ⟨⟨hLeft, rfl, hOpen⟩, by simp [Braces.tokens]⟩
    · obtain ⟨inner, r, hInner, hRight, rfl, hTokens⟩ :=
        splitClose_group Nat.one_pos hSplit
      refine ⟨⟨hLeft, ?_, ?_⟩, ?_⟩
      · simpa using hInner
      · simpa using hRight
      · simp [Braces.tokens, hTokens]
  · simp only [splitBraces, if_neg hLeft]
    refine ⟨?_, rfl⟩
    intro s hHead
    simp only [List.head?_cons, Option.some.injEq] at hHead
    rwa [← hHead]

/- No other group stands there. -/
theorem splitBraces_complete
    {braces : Braces}
    {rest : List Token}
    (hFits : braces.Fits rest) :
    splitBraces (braces.tokens ++ rest) = (braces, rest) := by
  cases braces with
  | absent =>
      cases rest with
      | nil => rfl
      | cons t ts =>
          have hKind := hFits t rfl
          simp [Braces.tokens, splitBraces, hKind]
  | closed l inner r =>
      obtain ⟨hLeft, hInner, hRight⟩ := hFits
      have hSplit :=
        splitClose_closed rest Nat.one_pos hInner hRight
      simp [Braces.tokens, splitBraces, hLeft, hSplit]
  | unclosed l inner =>
      obtain ⟨hLeft, rfl, hOpen⟩ := hFits
      have hSplit := (splitClose_eq_none_iff Nat.one_pos).mpr hOpen
      simp [Braces.tokens, splitBraces, hLeft, hSplit]

------------------------------------------------------------
-- Items
------------------------------------------------------------

/-
  An item at the top of a script: a block, whose keyword has
  a kind; a block whose keyword has none; or tokens that
  begin no block. The token in the place of a name may be
  something else that is taken for a bad name.
-/
inductive Item where
  | block
      (keyword : Token)
      (named : Bool)
      (name : Option Token)
      (braces : Braces)
  | unknown
      (keyword : Token)
      (name : Option Token)
      (braces : Braces)
  | stray
      (run : List Token)
      (braces : Braces)

namespace Item

/- The tokens of an item. -/
def tokens : Item → List Token
  | block keyword _ name braces =>
      keyword :: name.toList ++ braces.tokens
  | unknown keyword name braces =>
      keyword :: name.toList ++ braces.tokens
  | stray run braces => run ++ braces.tokens

/-
  What may stand in the place of a name, before `after`: a
  name, a number or a parenthesis where a name is asked for,
  and nothing only before a brace or at the end.
-/
inductive NameFits :
    Bool → Option Token → List Token → Prop where
  | unnamed
      {after : List Token} :
      NameFits false none after
  | name
      {t : Token}
      {after : List Token}
      (hKind : t.kind = .ident ∨ t.kind = .str) :
      NameFits true (some t) after
  | other
      {t : Token}
      {after : List Token}
      (hKind :
        t.kind = .number ∨ t.kind = .lParen ∨ t.kind = .rParen) :
      NameFits true (some t) after
  | missing
      {after : List Token}
      (hBrace :
        ∀ t, after.head? = some t →
          t.kind = .lBrace ∨ t.kind = .rBrace) :
      NameFits true none after

/-
  Whether a token is taken for the name of a block without a
  kind: a string, a number, or a word that is no keyword.
-/
def TakenForName (r : Registry) (t : Token) : Prop :=
  t.kind = .str ∨ t.kind = .number
    ∨ t.kind = .ident ∧ r.lookup t.text = none

/- The items that may stand before `rest`. -/
def Fits (r : Registry) (rest : List Token) : Item → Prop
  | block keyword named name braces =>
      keyword.kind = .ident
        ∧ (r.lookup keyword.text).map BlockKind.named = some named
        ∧ NameFits named name (braces.tokens ++ rest)
        ∧ braces.Fits rest
  | unknown keyword name braces =>
      keyword.kind = .ident
        ∧ r.lookup keyword.text = none
        ∧ (∀ t, name = some t → TakenForName r t)
        ∧ (name = none →
            ∀ t, (braces.tokens ++ rest).head? = some t →
              ¬ TakenForName r t)
        ∧ braces.Fits rest
  | stray run braces =>
      (∀ t ∈ run, t.kind ≠ .ident ∧ t.kind ≠ .lBrace)
        ∧ (∀ t, (braces.tokens ++ rest).head? = some t →
            t.kind = .ident ∨ t.kind = .lBrace)
        ∧ run ++ braces.tokens ≠ []
        ∧ braces.Fits rest

------------------------------------------------------------
-- Items Are Found in One Way
------------------------------------------------------------

theorem NameFits.not_brace
    {t : Token}
    {named : Bool}
    {after : List Token}
    (hName : NameFits named (some t) after) :
    named = true ∧ ¬ (t.kind = .lBrace ∨ t.kind = .rBrace) := by
  cases hName with
  | name hKind => rcases hKind with h | h <;> simp [h]
  | other hKind => rcases hKind with h | h | h <;> simp [h]

theorem NameFits.brace
    {t : Token}
    {after : List Token}
    (hName : NameFits true none after)
    (hHead : after.head? = some t) :
    t.kind = .lBrace ∨ t.kind = .rBrace := by
  cases hName with
  | missing hBrace => exact hBrace t hHead

theorem NameFits.unique
    {named : Bool}
    {name name' : Option Token}
    {after after' : List Token}
    (hName : NameFits named name after)
    (hName' : NameFits named name' after')
    (hTokens : name.toList ++ after = name'.toList ++ after') :
    name = name' ∧ after = after' := by
  rcases name with _ | t <;> rcases name' with _ | t'
  · exact ⟨rfl, hTokens⟩
  · obtain ⟨rfl, hKind⟩ := hName'.not_brace
    have hHead : after.head? = some t' := by
      simpa using congrArg List.head? hTokens
    exact absurd (hName.brace hHead) hKind
  · obtain ⟨rfl, hKind⟩ := hName.not_brace
    have hHead : after'.head? = some t := by
      simpa using congrArg List.head? hTokens.symm
    exact absurd (hName'.brace hHead) hKind
  · simp_all

/- A run of tokens ends before the first that is not in it. -/
theorem run_unique
    {p : Token → Prop}
    {run run' after after' : List Token}
    (hRun : ∀ t ∈ run, p t)
    (hRun' : ∀ t ∈ run', p t)
    (hAfter : ∀ t, after.head? = some t → ¬ p t)
    (hAfter' : ∀ t, after'.head? = some t → ¬ p t)
    (hTokens : run ++ after = run' ++ after') :
    run = run' ∧ after = after' := by
  induction run generalizing run' with
  | nil =>
      cases run' with
      | nil => exact ⟨rfl, hTokens⟩
      | cons t run' =>
          have hHead : after.head? = some t := by
            simpa using congrArg List.head? hTokens
          exact absurd (hRun' t (by simp)) (hAfter t hHead)
  | cons t run ih =>
      cases run' with
      | nil =>
          have hHead : after'.head? = some t := by
            simpa using congrArg List.head? hTokens.symm
          exact absurd (hRun t (by simp)) (hAfter' t hHead)
      | cons t' run' =>
          simp only [List.cons_append, List.cons.injEq] at hTokens
          obtain ⟨rfl, hTokens⟩ := hTokens
          obtain ⟨rfl, rfl⟩ :=
            ih (fun s hs => hRun s (by simp [hs]))
              (fun s hs => hRun' s (by simp [hs])) hTokens
          exact ⟨rfl, rfl⟩

theorem braces_unique
    {braces braces' : Braces}
    {rest rest' : List Token}
    (hBraces : braces.Fits rest)
    (hBraces' : braces'.Fits rest')
    (hTokens :
      braces.tokens ++ rest = braces'.tokens ++ rest') :
    braces = braces' ∧ rest = rest' := by
  have hSplit := splitBraces_complete hBraces
  rw [hTokens, splitBraces_complete hBraces'] at hSplit
  simp only [Prod.mk.injEq] at hSplit
  exact ⟨hSplit.1.symm, hSplit.2.symm⟩

/- The token at the front of a stray item begins no block. -/
theorem stray_head
    {r : Registry}
    {rest : List Token}
    {run : List Token}
    {braces : Braces}
    {t : Token}
    {ts : List Token}
    (hFits : (stray run braces).Fits r rest)
    (hTokens : run ++ braces.tokens ++ rest = t :: ts) :
    t.kind ≠ .ident := by
  obtain ⟨hRun, -, hSome, hBraces⟩ := hFits
  cases run with
  | nil =>
      cases braces with
      | absent => simp [Braces.tokens] at hSome
      | closed l inner r' =>
          simp only [Braces.tokens, List.nil_append,
            List.cons_append, List.cons.injEq] at hTokens
          rw [← hTokens.1, hBraces.1]
          simp
      | unclosed l inner =>
          simp only [Braces.tokens, List.nil_append,
            List.cons_append, List.cons.injEq] at hTokens
          rw [← hTokens.1, hBraces.1]
          simp
  | cons s run =>
      simp only [List.cons_append, List.cons.injEq] at hTokens
      rw [← hTokens.1]
      exact (hRun s (by simp)).1

/- A block without a kind takes all of its name. -/
theorem unknown_name_unique
    {r : Registry}
    {name name' : Option Token}
    {after after' : List Token}
    (hName : ∀ t, name = some t → TakenForName r t)
    (hName' : ∀ t, name' = some t → TakenForName r t)
    (hNone :
      name = none →
        ∀ t, after.head? = some t → ¬ TakenForName r t)
    (hNone' :
      name' = none →
        ∀ t, after'.head? = some t → ¬ TakenForName r t)
    (hTokens : name.toList ++ after = name'.toList ++ after') :
    name = name' ∧ after = after' := by
  rcases name with _ | t <;> rcases name' with _ | t'
  · exact ⟨rfl, hTokens⟩
  · have hHead : after.head? = some t' := by
      simpa using congrArg List.head? hTokens
    exact absurd (hName' t' rfl) (hNone rfl t' hHead)
  · have hHead : after'.head? = some t := by
      simpa using congrArg List.head? hTokens.symm
    exact absurd (hName t rfl) (hNone' rfl t hHead)
  · simp_all

/- Two items at the front of the same tokens are the same. -/
theorem eq_of_fits
    {r : Registry}
    {item item' : Item}
    {rest rest' : List Token}
    (hFits : item.Fits r rest)
    (hFits' : item'.Fits r rest')
    (hTokens : item.tokens ++ rest = item'.tokens ++ rest') :
    item = item' ∧ rest = rest' := by
  cases item with
  | block keyword named name braces =>
      obtain ⟨hKind, hLookup, hName, hBraces⟩ := hFits
      cases item' with
      | block keyword' named' name' braces' =>
          obtain ⟨-, hLookup', hName', hBraces'⟩ := hFits'
          simp only [tokens, List.cons_append, List.append_assoc,
            List.cons.injEq] at hTokens
          obtain ⟨rfl, hTokens⟩ := hTokens
          obtain rfl : named = named' :=
            Option.some.inj (hLookup.symm.trans hLookup')
          obtain ⟨rfl, hBehind⟩ := hName.unique hName' hTokens
          obtain ⟨rfl, rfl⟩ :=
            braces_unique hBraces hBraces' hBehind
          exact ⟨rfl, rfl⟩
      | unknown keyword' name' braces' =>
          obtain ⟨-, hLookup', -⟩ := hFits'
          simp only [tokens, List.cons_append,
            List.cons.injEq] at hTokens
          rw [hTokens.1, hLookup'] at hLookup
          simp at hLookup
      | stray run braces' =>
          exact absurd hKind (stray_head hFits' hTokens.symm)
  | unknown keyword name braces =>
      obtain ⟨hKind, hLookup, hName, hNone, hBraces⟩ := hFits
      cases item' with
      | block keyword' named' name' braces' =>
          obtain ⟨-, hLookup', -⟩ := hFits'
          simp only [tokens, List.cons_append,
            List.cons.injEq] at hTokens
          rw [← hTokens.1, hLookup] at hLookup'
          simp at hLookup'
      | unknown keyword' name' braces' =>
          obtain ⟨-, -, hName', hNone', hBraces'⟩ := hFits'
          simp only [tokens, List.cons_append, List.append_assoc,
            List.cons.injEq] at hTokens
          obtain ⟨rfl, hTokens⟩ := hTokens
          obtain ⟨rfl, hBehind⟩ :=
            unknown_name_unique hName hName' hNone hNone' hTokens
          obtain ⟨rfl, rfl⟩ :=
            braces_unique hBraces hBraces' hBehind
          exact ⟨rfl, rfl⟩
      | stray run braces' =>
          exact absurd hKind (stray_head hFits' hTokens.symm)
  | stray run braces =>
      cases item' with
      | block keyword' named' name' braces' =>
          exact absurd hFits'.1 (stray_head hFits hTokens)
      | unknown keyword' name' braces' =>
          exact absurd hFits'.1 (stray_head hFits hTokens)
      | stray run' braces' =>
          obtain ⟨hRun, hAfter, -, hBraces⟩ := hFits
          obtain ⟨hRun', hAfter', -, hBraces'⟩ := hFits'
          simp only [tokens, List.append_assoc] at hTokens
          obtain ⟨rfl, hBehind⟩ :=
            run_unique hRun hRun'
              (fun t hHead hBoth => by
                rcases hAfter t hHead with h | h
                · exact hBoth.1 h
                · exact hBoth.2 h)
              (fun t hHead hBoth => by
                rcases hAfter' t hHead with h | h
                · exact hBoth.1 h
                · exact hBoth.2 h)
              hTokens
          obtain ⟨rfl, rfl⟩ :=
            braces_unique hBraces hBraces' hBehind
          exact ⟨rfl, rfl⟩

/- An item has a token. -/
theorem tokens_ne_nil
    {r : Registry}
    {item : Item}
    {rest : List Token}
    (hFits : item.Fits r rest) :
    item.tokens ≠ [] := by
  cases item with
  | block => simp [tokens]
  | unknown => simp [tokens]
  | stray run braces => exact hFits.2.2.1

end Item

/- How tokens fall into items. -/
inductive Splits (r : Registry) :
    List Token → List Item → Prop where
  | nil : Splits r [] []
  | cons
      {item : Item}
      {rest : List Token}
      {items : List Item}
      (hFits : item.Fits r rest)
      (hRest : Splits r rest items) :
      Splits r (item.tokens ++ rest) (item :: items)

/- Tokens fall into items in one way. -/
theorem Splits.unique
    {r : Registry}
    {tokens : List Token}
    {items items' : List Item}
    (hSplits : Splits r tokens items)
    (hSplits' : Splits r tokens items') :
    items = items' := by
  induction hSplits generalizing items' with
  | nil =>
      generalize hTokens : ([] : List Token) = ts at hSplits'
      cases hSplits' with
      | nil => rfl
      | cons hFits _ =>
          have hSome := Item.tokens_ne_nil hFits
          simp_all
  | cons hFits hRest ih =>
      rename_i item rest items
      generalize hTokens : item.tokens ++ rest = ts at hSplits'
      cases hSplits' with
      | nil =>
          have hSome := Item.tokens_ne_nil hFits
          simp_all
      | cons hFits' hRest' =>
          obtain ⟨rfl, rfl⟩ :=
            Item.eq_of_fits hFits hFits' hTokens
          rw [ih hRest']

end BlockScript
