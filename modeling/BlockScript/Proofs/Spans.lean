import BlockScript.Proofs.SelfContained

/-
  This file shows how blocks and fields lie in a text. Blocks
  come one after the other, each begins with its keyword, and
  one that is read ends with the brace that closes it. Its
  fields come one after the other between its braces, each
  from its key to the end of its value.

  Key definitions include:
    * `Span.Joins`
    * `Ranges`
    * `Field.Consists`
    * `Fields.Fill`
    * `Block.Begins`
    * `Block.Encloses`

  Key theorems include:
    * `Ranges.pairwise`
    * `Body.fill_of_outcomeOf`
    * `Splits.ranges`
    * `Script.parse_spans`
-/

namespace BlockScript

------------------------------------------------------------
-- Tokens in Order
------------------------------------------------------------

/- Tokens that take bytes, each after those before it. -/
structure InOrder (ts : List Token) : Prop where
  some : ∀ t ∈ ts, t.span.start < t.span.stop
  order :
    ts.Pairwise fun s t => s.span.stop ≤ t.span.start

theorem inOrder_tokenize
    (source : String) :
    InOrder (tokenize source).1 where
  some t ht := ((tiling_tokenize source).bounds t ht).2.1
  order := (tiling_tokenize source).pairwise

namespace InOrder

variable {ts us : List Token}

theorem left
    (hOrder : InOrder (ts ++ us)) :
    InOrder ts where
  some t ht := hOrder.some t (List.mem_append_left us ht)
  order := (List.pairwise_append.mp hOrder.order).1

theorem right
    (hOrder : InOrder (ts ++ us)) :
    InOrder us where
  some t ht := hOrder.some t (List.mem_append_right ts ht)
  order := (List.pairwise_append.mp hOrder.order).2.1

theorem between
    {s t : Token}
    (hOrder : InOrder (ts ++ us))
    (hLeft : s ∈ ts)
    (hRight : t ∈ us) :
    s.span.stop ≤ t.span.start :=
  (List.pairwise_append.mp hOrder.order).2.2 s hLeft t hRight

end InOrder

------------------------------------------------------------
-- Ranges of Tokens
------------------------------------------------------------

/- A range from the first of some tokens to the last. -/
def Span.Joins
    (s : Span)
    (own : List Token) : Prop :=
  ∃ first last,
    own.head? = some first
      ∧ own.getLast? = some last
      ∧ s = { start := first.span.start, stop := last.span.stop }

/- From one token to another there are bytes. -/
theorem Span.Joins.lt
    {s : Span}
    {own : List Token}
    (hJoins : s.Joins own)
    (hOrder : InOrder own) :
    s.start < s.stop := by
  rcases hJoins with ⟨first, last, hFirst, hLast, rfl⟩
  have hSome := hOrder.some last (List.mem_of_getLast? hLast)
  rcases List.head?_eq_some_iff.mp hFirst with ⟨more, rfl⟩
  rcases List.eq_nil_or_concat more with rfl | ⟨rest, t, rfl⟩
  · rw [List.getLast?_singleton, Option.some.injEq] at hLast
    rw [hLast]
    exact hSome
  · have hEnd : t = last := by
      simpa [List.getLast?_cons, List.getLast?_append] using hLast
    have hStart := hOrder.some first (.head _)
    have hAfter : first.span.stop ≤ last.span.start :=
      List.rel_of_pairwise_cons hOrder.order (by simp [hEnd])
    exact Nat.lt_trans (Nat.lt_of_lt_of_le hStart hAfter) hSome

/-
  Ranges of tokens, one after the other. There may be tokens
  between them that belong to none.
-/
inductive Ranges : List Token → List Span → Prop where
  | nil
      {ts : List Token} :
      Ranges ts []
  | cons
      {own rest : List Token}
      {s : Span}
      {ss : List Span}
      (before : List Token)
      (hJoins : s.Joins own)
      (hRest : Ranges rest ss) :
      Ranges (before ++ (own ++ rest)) (s :: ss)

namespace Ranges

variable {ts : List Token}
variable {ss : List Span}

theorem skip
    (before : List Token)
    (hRanges : Ranges ts ss) :
    Ranges (before ++ ts) ss := by
  cases hRanges with
  | nil => exact .nil
  | cons more hJoins hRest =>
      rw [← List.append_assoc]
      exact .cons (before ++ more) hJoins hRest

/- Ranges begin and end with tokens, and are not empty. -/
theorem bounds
    (hRanges : Ranges ts ss)
    (hOrder : InOrder ts) :
    ∀ s ∈ ss,
      s.start < s.stop
        ∧ (∃ t ∈ ts, s.start = t.span.start)
        ∧ ∃ t ∈ ts, s.stop = t.span.stop := by
  induction hRanges with
  | nil => simp
  | @cons own rest s ss before hJoins _ ih =>
      intro s' hs'
      rcases List.mem_cons.mp hs' with rfl | hs'
      · have hLess := hJoins.lt hOrder.right.left
        rcases hJoins with ⟨first, last, hFirst, hLast, rfl⟩
        have hStart := List.mem_of_head? hFirst
        have hStop := List.mem_of_getLast? hLast
        exact ⟨hLess, ⟨first, by simp [hStart], rfl⟩,
          last, by simp [hStop], rfl⟩
      · rcases ih hOrder.right.right s' hs' with
          ⟨hLess, ⟨t, ht, hStart⟩, t', ht', hStop⟩
        exact ⟨hLess, ⟨t, by simp [ht], hStart⟩,
          t', by simp [ht'], hStop⟩

/- Each range ends before the next one starts. -/
theorem pairwise
    (hRanges : Ranges ts ss)
    (hOrder : InOrder ts) :
    ss.Pairwise fun s s' => s.stop ≤ s'.start := by
  induction hRanges with
  | nil => exact .nil
  | @cons own rest s ss before hJoins hRest ih =>
      refine .cons ?_ (ih hOrder.right.right)
      intro s' hs'
      rcases hRest.bounds hOrder.right.right s' hs' with
        ⟨-, ⟨t, ht, hStart⟩, -⟩
      rcases hJoins with ⟨first, last, -, hLast, rfl⟩
      rw [hStart]
      exact hOrder.right.between (List.mem_of_getLast? hLast) ht

end Ranges

------------------------------------------------------------
-- Fields
------------------------------------------------------------

/-
  The tokens of a field: a word that is its key, then those
  that are its value. Its span goes over all of them.
-/
structure Field.Consists
    (f : Field)
    (key : Token)
    (parts : List Token) : Prop where
  isWord : key.isWord = true
  text : key.text = f.key
  value : ∃ type : ValueType, type.Denotes parts f.value
  span :
    f.span
      = { start := key.span.start,
          stop := (parts.getLastD key).span.stop }

/- Tokens that are those of some fields, and no others. -/
inductive Fields.Fill : List Token → List Field → Prop where
  | nil : Fill [] []
  | cons
      {f : Field}
      {key : Token}
      {parts rest : List Token}
      {fields : List Field}
      (hField : f.Consists key parts)
      (hRest : Fill rest fields) :
      Fill (key :: (parts ++ rest)) (f :: fields)

theorem Field.Consists.joins
    {f : Field}
    {key : Token}
    {parts : List Token}
    (hField : f.Consists key parts) :
    f.span.Joins (key :: parts) :=
  ⟨key, parts.getLastD key, rfl, by simp [List.getLast?_cons],
    hField.span⟩

theorem Fields.Fill.ranges
    {ts : List Token}
    {fields : List Field}
    (hFill : Fill ts fields) :
    Ranges ts (fields.map Field.span) := by
  induction hFill with
  | nil => exact .nil
  | cons hField _ ih => exact .cons [] hField.joins ih

/- Fields that fill a body lie between its braces. -/
theorem Fields.Fill.between
    {l r : Token}
    {inner : List Token}
    {fields : List Field}
    (hFill : Fill inner fields)
    (hOrder : InOrder ([l] ++ (inner ++ [r]))) :
    ∀ f ∈ fields,
      l.span.stop ≤ f.span.start
        ∧ f.span.start < f.span.stop
        ∧ f.span.stop ≤ r.span.start := by
  intro f hf
  rcases hFill.ranges.bounds hOrder.right.left f.span
    (List.mem_map_of_mem hf) with
    ⟨hSome, ⟨t, ht, hStart⟩, t', ht', hStop⟩
  refine ⟨?_, hSome, ?_⟩
  · rw [hStart]
    exact hOrder.between (List.mem_singleton_self l)
      (List.mem_append_left [r] ht)
  · rw [hStop]
    exact hOrder.right.between ht' (List.mem_singleton_self r)

theorem Fields.Fill.pairwise
    {inner : List Token}
    {fields : List Field}
    (hFill : Fill inner fields)
    (hOrder : InOrder inner) :
    fields.Pairwise fun f f' => f.span.stop ≤ f'.span.start :=
  List.pairwise_map.mp (hFill.ranges.pairwise hOrder)

namespace FieldTable

variable {table : FieldTable}

theorem Entry.consists
    (e : table.Entry) :
    e.field.Consists e.key e.parts where
  isWord := e.isWord
  text := e.name_eq.symm
  value := ⟨e.spec.type, e.denotes⟩
  span := rfl

theorem fill_entries
    (es : List table.Entry) :
    Fields.Fill (es.flatMap Entry.tokens)
      (es.map Entry.field) := by
  induction es with
  | nil => exact .nil
  | cons e es ih => exact .cons e.consists ih

end FieldTable

/-
  A body that is read has no fields, or is filled by them up
  to the closing brace.
-/
theorem Body.fill_of_outcomeOf
    {body : Body}
    {inner : List Token}
    {close : Token}
    {fields : List Field}
    (hPlain : body.isCustom = false)
    (hInner : Balanced inner)
    (hRight : close.kind = .rBrace)
    (hOutcome :
      body.outcomeOf (inner ++ [close]) = .parsed fields) :
    fields = [] ∨ Fields.Fill inner fields := by
  unfold outcomeOf at hOutcome
  split at hOutcome
  · rename_i found hOk
    obtain rfl : found = fields := Outcome.parsed.inj hOutcome
    cases body with
    | unstructured =>
        simp only [read] at hOk
        split at hOk
        · exact .inl (Except.ok.inj hOk).symm
        · cases hOk
    | table table =>
        rcases (table.readFields_ok_iff Nat.one_pos hInner hRight
          rfl).mp hOk with ⟨es, hBody, rfl⟩
        rcases hBody.tokens with ⟨r, -, hTokens⟩
        rw [List.flatMap_nil, List.nil_append] at hTokens
        rw [(List.append_inj' hTokens rfl).1]
        exact .inr (table.fill_entries es)
    | custom g => simp [isCustom] at hPlain
  · cases hOutcome

------------------------------------------------------------
-- Blocks
------------------------------------------------------------

/- A block lies in a text and begins with its keyword. -/
structure Block.Begins
    (source : String)
    (b : Block) : Prop where
  some : b.span.start < b.span.stop
  stop : b.span.stop ≤ source.utf8ByteSize
  keyword : ∃ rest, b.span.Covers source (b.keyword ++ rest)

/-
  A block that was read, with the tokens of its body between
  the braces `l` and `r`. These belong together, since all
  braces between them have their partners there.
-/
structure Block.Encloses
    (source : String)
    (b : Block)
    (fields : List Field)
    (l : Token)
    (inner : List Token)
    (r : Token) : Prop where
  left : l.kind = .lBrace
  balanced : Balanced inner
  right : r.kind = .rBrace
  tokens :
    ∃ front keyword name rest,
      (tokenize source).1
          = front
              ++ (keyword
                    :: (Option.toList name
                      ++ (l :: inner ++ [r]))
                  ++ rest)
        ∧ keyword.kind = .ident
        ∧ keyword.text = b.keyword
        ∧ (name.filter Token.isWord).map Token.text = b.name
        ∧ b.span
            = { start := keyword.span.start,
                stop := r.span.stop }
  brace : ∃ text, b.span.Covers source (text ++ "\x7d")
  filled : fields = [] ∨ Fields.Fill inner fields
  order :
    fields.Pairwise fun f f' => f.span.stop ≤ f'.span.start
  between :
    ∀ f ∈ fields,
      l.span.stop ≤ f.span.start
        ∧ f.span.start < f.span.stop
        ∧ f.span.stop ≤ r.span.start

/- The blocks of items are one after the other. -/
theorem Splits.ranges
    {r : Registry}
    {tokens : List Token}
    {items : List Item}
    (hSplits : Splits r tokens items) :
    Ranges tokens
      ((items.filterMap (Item.blockIn? r)).map Block.span) := by
  induction hSplits with
  | nil => exact .nil
  | @cons item rest items _ _ ih =>
      rcases hGives : item.blockIn? r with _ | b
      · rw [List.filterMap_cons_none hGives]
        exact ih.skip item.tokens
      · rw [List.filterMap_cons_some hGives, List.map_cons]
        rcases Item.ends_of_blockIn? hGives with
          ⟨first, last, hFirst, hLast, -, hSpan⟩
        exact .cons [] ⟨first, last, hFirst, hLast, hSpan⟩ ih

/- A block begins with a word. -/
theorem Item.kind_of_head
    {r : Registry}
    {item : Item}
    {rest : List Token}
    {b : Block}
    {k : Token}
    (hFits : item.Fits r rest)
    (hGives : item.blockIn? r = some b)
    (hHead : item.tokens.head? = some k) :
    k.kind = .ident := by
  cases item with
  | unknown => simp [blockIn?, header?] at hGives
  | stray => simp [blockIn?, header?] at hGives
  | block k' named name braces =>
      obtain rfl : k' = k := by
        simpa [Item.tokens] using hHead
      exact hFits.1

/- A block that was read is closed, and its fields fill it. -/
theorem Item.fill_of_parsed
    {r : Registry}
    {item : Item}
    {rest : List Token}
    {b : Block}
    {fields : List Field}
    (hPlain : r.Plain)
    (hFits : item.Fits r rest)
    (hGives : item.blockIn? r = some b)
    (hParsed : b.outcome = .parsed fields) :
    ∃ k named name l inner close,
      item = .block k named name (.closed l inner close)
        ∧ (fields = [] ∨ Fields.Fill inner fields) := by
  cases item with
  | unknown => simp [blockIn?, header?] at hGives
  | stray => simp [blockIn?, header?] at hGives
  | block k named name braces =>
      rcases hFits with ⟨-, hNamed, -, hBraces⟩
      rcases Option.map_eq_some_iff.mp hNamed with
        ⟨kind, hLookup, -⟩
      have hBody : kind.body.isCustom = false :=
        hPlain kind (KindTable.mem_kinds_of_get? hLookup)
      have hOutcome : braces.outcome kind.body = b.outcome := by
        simp only [blockIn?, header?, outcome, hLookup,
          Option.map_some, Option.some.injEq] at hGives
        rw [← hGives]
      rw [hParsed] at hOutcome
      cases braces with
      | absent => cases hOutcome
      | unclosed => cases hOutcome
      | closed l inner close =>
          exact ⟨k, named, name, l, inner, close, rfl,
            Body.fill_of_outcomeOf hBody hBraces.2.1
              hBraces.2.2 hOutcome⟩

------------------------------------------------------------
-- Slices
------------------------------------------------------------

theorem Span.Covers.stop_le
    {s : Span}
    {source slice : String}
    (hCovers : s.Covers source slice) :
    s.stop ≤ source.utf8ByteSize := by
  rcases hCovers with ⟨front, back, rfl, -, hStop⟩
  rw [hStop, String.utf8ByteSize_append (s := front ++ slice)]
  exact Nat.le_add_right _ _

theorem Span.Covers.stop_eq
    {s : Span}
    {source slice : String}
    (hCovers : s.Covers source slice) :
    s.stop = s.start + slice.utf8ByteSize := by
  rcases hCovers with ⟨front, back, -, hStart, hStop⟩
  rw [hStop, hStart, String.utf8ByteSize_append]

/- A slice from a word on begins with this word. -/
theorem starts_with_word
    {slice : String}
    {first : Token}
    {own : List Token}
    (hKind : first.kind = .ident)
    (hMoved :
      List.Forall₂ (Token.Moved first.span.start)
        (tokenize slice).1 (first :: own)) :
    ∃ rest, slice = first.text ++ rest := by
  rcases List.forall₂_cons_right_iff.mp hMoved with
    ⟨t, ts, hToken, -, hTokens⟩
  rcases (tokenize_tiles slice).2.2.2 t (by simp [hTokens]) with
    ⟨-, -, before, word, after, hSlice, hStands⟩
  -- The word stands at the start of the slice.
  have hNone : before = [] := by
    have hStart := hStands.start
    have hThere := hToken.start
    have hZero : (String.ofList before).utf8ByteSize = 0 := by
      simp only [Position.first] at hStart
      omega
    rw [String.utf8ByteSize_eq_zero_iff] at hZero
    simpa using congrArg String.toList hZero
  have hWord : first.text.toList = word := by
    rw [hToken.text_eq]
    apply hStands.text
    rw [hToken.kind_eq.symm.trans hKind]
    simp
  refine ⟨String.ofList after, ?_⟩
  rw [← String.toList_inj, hSlice, hNone, ← hWord]
  simp

theorem rBrace_of_ofPunctuation?
    {c : Char}
    (hKind : TokenKind.ofPunctuation? c = some .rBrace) :
    c = '\x7d' := by
  unfold TokenKind.ofPunctuation? at hKind
  split at hKind <;> simp_all

/- A slice up to a closing brace ends with this brace. -/
theorem ends_with_brace
    {slice : String}
    {start : Nat}
    {own : List Token}
    {last : Token}
    (hKind : last.kind = .rBrace)
    (hStop : last.span.stop = start + slice.utf8ByteSize)
    (hMoved :
      List.Forall₂ (Token.Moved start)
        (tokenize slice).1 (own ++ [last])) :
    ∃ text, slice = text ++ "\x7d" := by
  have hReverse := List.forall₂_reverse_iff.mpr hMoved
  rw [List.reverse_append, List.reverse_singleton,
    List.singleton_append] at hReverse
  rcases List.forall₂_cons_right_iff.mp hReverse with
    ⟨t, ts, hToken, -, hTokens⟩
  have hLast : t ∈ (tokenize slice).1 := by
    rw [← List.mem_reverse, hTokens]
    exact .head ts
  rcases (tokenize_tiles slice).2.2.2 t hLast with
    ⟨-, -, before, mark, after, hSlice, hStands⟩
  have hRight : t.kind = .rBrace := hToken.kind_eq.symm.trans hKind
  have hMark : mark = ['\x7d'] := by
    rcases (tiling_tokenize slice).punctuation t hLast
      (by rw [hRight]; rfl) with ⟨c, hBrace, hText⟩
    have hThere := hStands.text (by rw [hRight]; simp)
    rw [hRight] at hBrace
    rw [← hThere, hText, String.toList_ofList,
      rBrace_of_ofPunctuation? hBrace]
  -- Nothing is left of the slice after the brace.
  have hNone : after = [] := by
    have hEnd := hStands.stop
    have hThere := hToken.stop
    have hSize := congrArg (fun x => (String.ofList x).utf8ByteSize) hSlice
    have hZero : (String.ofList after).utf8ByteSize = 0 := by
      simp only [Position.first, String.ofList_toList,
        String.ofList_append, String.utf8ByteSize_append]
        at hEnd hSize
      omega
    rw [String.utf8ByteSize_eq_zero_iff] at hZero
    simpa using congrArg String.toList hZero
  refine ⟨String.ofList before, ?_⟩
  rw [← String.toList_inj, hSlice, hNone, hMark]
  simp

------------------------------------------------------------
-- Scripts
------------------------------------------------------------

namespace Item

variable {r : Registry}
variable {source : String}
variable {front rest : List Token}
variable {item : Item}
variable {b : Block}

theorem begins
    (hTokens : (tokenize source).1 = front ++ (item.tokens ++ rest))
    (hFits : item.Fits r rest)
    (hGives : item.blockIn? r = some b) :
    b.Begins source := by
  rcases ends_of_blockIn? hGives with
    ⟨first, last, hFirst, hLast, hText, hSpan⟩
  have hKind := kind_of_head hFits hGives hFirst
  have hOrder := inOrder_tokenize source
  rw [hTokens] at hOrder
  rcases tokenize_slice hTokens hFirst hLast with
    ⟨slice, hCovers, hMoved⟩
  rw [← hSpan] at hCovers
  refine ⟨?_, hCovers.stop_le, ?_⟩
  · exact Span.Joins.lt ⟨first, last, hFirst, hLast, hSpan⟩
      hOrder.right.left
  · rcases List.head?_eq_some_iff.mp hFirst with ⟨own, hOwn⟩
    rw [hOwn] at hMoved
    rcases starts_with_word hKind hMoved with ⟨more, rfl⟩
    exact ⟨more, hText ▸ hCovers⟩

theorem encloses
    {fields : List Field}
    (hPlain : r.Plain)
    (hTokens : (tokenize source).1 = front ++ (item.tokens ++ rest))
    (hFits : item.Fits r rest)
    (hGives : item.blockIn? r = some b)
    (hParsed : b.outcome = .parsed fields) :
    ∃ l inner close, b.Encloses source fields l inner close := by
  rcases fill_of_parsed hPlain hFits hGives hParsed with
    ⟨k, named, name, l, inner, close, rfl, hFilled⟩
  have hOwn :
      (block k named name (.closed l inner close)).tokens
        = k :: (name.toList ++ (l :: inner ++ [close])) :=
    rfl
  rcases ends_of_blockIn? hGives with
    ⟨first, last, hFirst, hLast, hText, hSpan⟩
  obtain rfl : k = first := Option.some.inj hFirst
  obtain rfl : close = last := by
    rw [hOwn, ← List.append_assoc, ← List.cons_append,
      List.getLast?_concat] at hLast
    exact Option.some.inj hLast
  rcases tokenize_slice hTokens hFirst hLast with
    ⟨slice, hCovers, hMoved⟩
  rw [hOwn] at hTokens hMoved
  rw [← List.append_assoc, ← List.cons_append] at hMoved
  rw [← hSpan] at hCovers
  have hStop := hCovers.stop_eq
  rw [hSpan] at hStop
  rcases hFits with ⟨hKind, -, -, hLeft, hInner, hRight⟩
  rcases ends_with_brace hRight hStop hMoved with ⟨text, rfl⟩
  -- Between the braces there are the tokens of the body alone.
  have hOrder := inOrder_tokenize source
  rw [hTokens] at hOrder
  have hAfter :
      InOrder ([k] ++ (name.toList ++ (l :: inner ++ [close]))) :=
    hOrder.right.left
  have hBody : InOrder ([l] ++ (inner ++ [close])) :=
    hAfter.right.right
  refine ⟨l, inner, close, hLeft, hInner, hRight,
    ⟨front, k, name, rest, hTokens, hKind, hText, ?_, hSpan⟩,
    ⟨text, hCovers⟩, hFilled, ?_, ?_⟩
  · exact congrArg Block.name (Option.some.inj hGives)
  · rcases hFilled with rfl | hFill
    · exact .nil
    · exact hFill.pairwise hBody.right.left
  · rcases hFilled with rfl | hFill
    · simp
    · exact hFill.between hBody

end Item

namespace Script

/-
  How the spans of a script lie in its text. Blocks come one
  after the other, in the text and with their keywords in
  front. A block that was read ends with the brace that
  closes it, and its fields come one after the other between
  its braces, each from its key to the end of its value.
-/
theorem parse_spans
    (r : Registry)
    (source : String)
    (hPlain : r.Plain) :
    (parse r source).blocks.Pairwise
        (fun b b' => b.span.stop ≤ b'.span.start)
      ∧ ∀ b ∈ (parse r source).blocks,
          b.Begins source
            ∧ ∀ fields,
                b.outcome = .parsed fields →
                  ∃ l inner close,
                    b.Encloses source fields l inner close := by
  rw [← blocks_tokenize source hPlain]
  rcases blocks_eq_items (tokenize source).1 hPlain with
    ⟨items, hSplits, hBlocks⟩
  rw [hBlocks]
  constructor
  · exact List.pairwise_map.mp
      (hSplits.ranges.pairwise (inOrder_tokenize source))
  · intro b hBlock
    rcases List.mem_filterMap.mp hBlock with
      ⟨item, hItem, hGives⟩
    rcases hSplits.fits_of_mem hItem with
      ⟨front, rest, hTokens, hFits⟩
    exact ⟨item.begins hTokens hFits hGives,
      fun fields hParsed =>
        item.encloses hPlain hTokens hFits hGives hParsed⟩

/- A block with fields, and one that input ends. -/
theorem parse_spans_standard :
    let source :=
      "é salary \x7b pilot_base 5 admin_robot 7 \x7d tech \x7b time"
    Registry.standard.Plain
      ∧ (parse .standard source).outline
          = [("salary", none, false), ("tech", none, true)]
      ∧ (parse .standard source).blocks.Pairwise
          (fun b b' => b.span.stop ≤ b'.span.start)
      ∧ ∀ b ∈ (parse .standard source).blocks,
          b.Begins source
            ∧ ∀ fields,
                b.outcome = .parsed fields →
                  ∃ l inner close,
                    b.Encloses source fields l inner close := by
  refine ⟨by decide, by decide +kernel, ?_⟩
  exact parse_spans .standard _ (by decide)

end Script
end BlockScript
