import BlockScript.Proofs.Numerals
import BlockScript.Proofs.Spelling
import BlockScript.Value.Printer
import BlockScript.Value.Reader

/-
  This file shows that numbers are words of a script, and
  that several numbers in one string are told apart again.

  Key definitions include:
    * `Number.isPlain`
    * `Number.PlainText`

  Key theorems include:
    * `Number.Binary.plainText_text`
    * `Number.Whole.plainText_text`
    * `spells_plain`
    * `Text.words_spaced`
    * `ScalarType.numbers?_numbers`
-/

namespace BlockScript

open Number (Single)

------------------------------------------------------------
-- Characters of Numbers
------------------------------------------------------------

namespace Number

/- The characters that numbers are written with. -/
def isPlain (c : Char) : Bool :=
  c.isAlphanum || c == '-' || c == '.'

/- Where these characters stand among all others. -/
theorem toNat_of_isPlain
    {c : Char}
    (hPlain : isPlain c = true) :
    45 ≤ c.toNat ∧ c.toNat ≤ 122
      ∧ c.toNat ≠ 47 ∧ c.toNat ≠ 92 := by
  unfold isPlain Char.isAlphanum Char.isAlpha Char.isUpper
    Char.isLower Char.isDigit at hPlain
  simp only [Bool.or_eq_true, Bool.and_eq_true,
    decide_eq_true_eq, beq_iff_eq] at hPlain
  rcases hPlain with
    (((⟨hLow, hHigh⟩ | ⟨hLow, hHigh⟩) | ⟨hLow, hHigh⟩) | rfl)
      | rfl
  · change 65 ≤ c.toNat at hLow
    change c.toNat ≤ 90 at hHigh
    omega
  · change 97 ≤ c.toNat at hLow
    change c.toNat ≤ 122 at hHigh
    omega
  · change 48 ≤ c.toNat at hLow
    change c.toNat ≤ 57 at hHigh
    omega
  · decide
  · decide

theorem isBlank_of_isPlain
    {c : Char}
    (hPlain : isPlain c = true) :
    Text.isBlank c = false := by
  have hRange := toNat_of_isPlain hPlain
  simp only [Text.isBlank, Bool.or_eq_false_iff,
    Bool.and_eq_false_iff, decide_eq_false_iff_not,
    beq_eq_false_iff_ne]
  omega

theorem ne_of_isPlain
    {c d : Char}
    (hPlain : isPlain c = true)
    (hOther : isPlain d = false) :
    c ≠ d := by
  rintro rfl
  simp [hPlain] at hOther

theorem isDelimiter_of_isPlain
    {c : Char}
    (hPlain : isPlain c = true) :
    isDelimiter c = false := by
  have hPunctuation : TokenKind.ofPunctuation? c = none := by
    unfold TokenKind.ofPunctuation?
    split <;> first | rfl | exact absurd hPlain (by decide)
  have hQuote : c ≠ '"' := ne_of_isPlain hPlain (by decide)
  simp [isDelimiter, isBlank_of_isPlain hPlain, hPunctuation,
    hQuote]

/- A text that could be that of a number. -/
structure PlainText (text : List Char) : Prop where
  nonempty : text ≠ []
  isPlain : ∀ c ∈ text, isPlain c = true

theorem plainText_of_all
    {text : List Char}
    (hSome : text ≠ [])
    (hAll : text.all Number.isPlain = true) :
    PlainText text :=
  ⟨hSome, List.all_eq_true.mp hAll⟩

theorem PlainText.signed
    {text : List Char}
    (negative : Bool)
    (hText : PlainText text) :
    PlainText (Binary.signText negative ++ text) := by
  constructor
  · simp [hText.nonempty]
  · intro c hc
    rcases List.mem_append.mp hc with hc | hc
    · cases negative with
      | true =>
          obtain rfl : c = '-' := List.mem_singleton.mp hc
          decide
      | false => simp [Binary.signText] at hc
    · exact hText.isPlain c hc

/- Digits, with or without a point, are plain. -/
theorem plainText_positional
    (n : Nat)
    (exponent : Int) :
    PlainText
      (Layout.plain.positional (Nat.toDigits 10 n) exponent) := by
  have hPlain : ∀ c ∈ Nat.toDigits 10 n, isPlain c = true := by
    intro c hc
    simp [isPlain, Char.isAlphanum, isDigit_toDigits n c hc]
  have hZero : isPlain '0' = true := by decide
  have hPoint : isPlain '.' = true := by decide
  have hSome : Nat.toDigits 10 n ≠ [] := Nat.toDigits_ne_nil
  cases exponent with
  | ofNat zeros =>
      constructor
      · simp [Layout.positional, hSome]
      · intro c hc
        simp only [Layout.positional, Layout.plain,
          Bool.false_eq_true, if_false, List.append_nil,
          List.mem_append, List.mem_replicate] at hc
        rcases hc with hc | ⟨-, rfl⟩
        · exact hPlain c hc
        · exact hZero
  | negSucc places =>
      simp only [Layout.positional]
      split
      · constructor
        · simp
        · intro c hc
          simp only [List.mem_append, List.mem_cons] at hc
          rcases hc with hc | rfl | hc
          · exact hPlain c (List.mem_of_mem_take hc)
          · exact hPoint
          · exact hPlain c (List.mem_of_mem_drop hc)
      · constructor
        · simp
        · intro c hc
          simp only [List.mem_cons, List.mem_append,
            List.mem_replicate] at hc
          rcases hc with rfl | rfl | ⟨-, rfl⟩ | hc
          · exact hZero
          · exact hPoint
          · exact hZero
          · exact hPlain c hc

theorem Binary.plainText_text
    {f : Format}
    (x : Binary f) :
    PlainText x.text := by
  cases x with
  | nan =>
      rw [text]
      exact plainText_of_all (by decide) (by decide)
  | infinite negative =>
      exact PlainText.signed negative
        (plainText_of_all (by decide) (by decide))
  | finite negative k =>
      apply PlainText.signed
      unfold Layout.magnitude
      split
      · exact plainText_positional 0 0
      · unfold Layout.decimal
        simp only
        split
        · exact plainText_positional _ 0
        · exact plainText_positional _ _

theorem Whole.plainText_text
    (n : Int64) :
    PlainText (text n) := by
  rw [text, textOfInt_eq]
  apply PlainText.signed
  have hDigits := plainText_positional n.toInt.natAbs 0
  simpa [Layout.positional, Layout.plain] using hDigits

end Number

------------------------------------------------------------
-- Numbers in a Script
------------------------------------------------------------

/- Without a slash there is no comment. -/
theorem Word.holdsComment_eq_false
    {text : List Char}
    (hSlash : '/' ∉ text) :
    holdsComment text = false := by
  induction text with
  | nil => rfl
  | cons c text ih =>
      have hFirst : c ≠ '/' := by
        rintro rfl
        exact hSlash List.mem_cons_self
      have hStarts : startsComment (c :: text) = false := by
        simp [startsComment, hFirst]
      rw [holdsComment, hStarts, Bool.false_or]
      apply ih
      intro hMember
      exact hSlash (List.mem_cons_of_mem c hMember)

/- Text without quotes and backslashes needs no escapes. -/
theorem Word.flatMap_escape
    {text : List Char}
    (hPlain : ∀ c ∈ text, c ≠ '"' ∧ c ≠ '\\') :
    text.flatMap escape = text := by
  induction text with
  | nil => rfl
  | cons c text ih =>
      obtain ⟨hQuote, hBackslash⟩ := hPlain c List.mem_cons_self
      rw [List.flatMap_cons, ih]
      · simp [escape, hQuote, hBackslash]
      · intro d hd
        exact hPlain d (List.mem_cons_of_mem c hd)

/- The text of a number is one word. -/
theorem spells_plain
    {text : List Char}
    (hText : Number.PlainText text) :
    Spells text [⟨wordKind text, String.ofList text⟩] := by
  apply spells_word hText.nonempty
  · intro c hc
    exact Number.isDelimiter_of_isPlain (hText.isPlain c hc)
  · apply Word.holdsComment_eq_false
    intro hSlash
    exact absurd (hText.isPlain '/' hSlash) (by decide)

namespace Value

theorem spaced_cons_cons
    (x y : List Char)
    (xs : List (List Char)) :
    spaced (x :: y :: xs) = x ++ ' ' :: spaced (y :: xs) := by
  simp [spaced, List.intercalate_cons_cons]

theorem spaced_singleton
    (x : List Char) :
    spaced [x] = x :=
  List.intercalate_singleton

theorem mem_spaced
    {c : Char}
    {texts : List (List Char)}
    (hc : c ∈ spaced texts) :
    c = ' ' ∨ ∃ x ∈ texts, c ∈ x := by
  induction texts with
  | nil => simp [spaced, List.intercalate] at hc
  | cons x texts ih =>
      cases texts with
      | nil =>
          rw [spaced_singleton] at hc
          exact .inr ⟨x, List.mem_cons_self, hc⟩
      | cons y texts =>
          rw [spaced_cons_cons, List.mem_append,
            List.mem_cons] at hc
          rcases hc with hc | rfl | hc
          · exact .inr ⟨x, List.mem_cons_self, hc⟩
          · exact .inl rfl
          · rcases ih hc with hBlank | ⟨z, hz, hc⟩
            · exact .inl hBlank
            · exact .inr ⟨z, List.mem_cons_of_mem x hz, hc⟩

/- Numbers in a string are written without escapes. -/
theorem quoted_numbers
    (xs : List Single) :
    Word.quoted (numbers xs) = '"' :: numbers xs ++ ['"'] := by
  rw [Word.quoted, Word.flatMap_escape, List.cons_append]
  intro c hc
  rcases mem_spaced hc with rfl | ⟨text, hText, hc⟩
  · decide
  · obtain ⟨x, -, rfl⟩ := List.mem_map.mp hText
    have hPlain := x.plainText_text.isPlain c hc
    constructor
    · exact Number.ne_of_isPlain hPlain (by decide)
    · exact Number.ne_of_isPlain hPlain (by decide)

end Value

------------------------------------------------------------
-- Words of a Text
------------------------------------------------------------

namespace Text

theorem words_eq
    (text : List Char) :
    words text
      = match text.dropWhile isBlank with
        | [] => []
        | c :: rest =>
            (c :: rest.takeWhile (!isBlank ·))
              :: words (rest.dropWhile (!isBlank ·)) := by
  rw [words]
  split
  · rename_i hText
    rw [hText]
  · rename_i c rest hText
    rw [hText]

theorem words_blank
    {s : Char}
    (text : List Char)
    (hBlank : isBlank s = true) :
    words (s :: text) = words text := by
  rw [words_eq (s :: text), words_eq text,
    List.dropWhile_cons_of_pos hBlank]

/- A word in front is split off. -/
theorem words_append
    {word rest : List Char}
    (hWord : Number.PlainText word)
    (hEnds : EndsWord rest) :
    words (word ++ rest) = word :: words rest := by
  have hPlain : ∀ c ∈ word, (!isBlank c) = true := by
    intro c hc
    rw [Number.isBlank_of_isPlain (hWord.isPlain c hc)]
    rfl
  have hTake : rest.takeWhile (!isBlank ·) = [] := by
    rcases hEnds.cases with rfl | ⟨s, more, hBlank, rfl⟩
    · rfl
    · simp [hBlank]
  have hDrop : rest.dropWhile (!isBlank ·) = rest := by
    rcases hEnds.cases with rfl | ⟨s, more, hBlank, rfl⟩
    · rfl
    · simp [hBlank]
  cases word with
  | nil => exact absurd rfl hWord.nonempty
  | cons c word =>
      have hFirst := hPlain c List.mem_cons_self
      have hRest : ∀ d ∈ word, (!isBlank d) = true := by
        intro d hd
        exact hPlain d (List.mem_cons_of_mem c hd)
      rw [Bool.not_eq_true'] at hFirst
      rw [words_eq, List.cons_append]
      simp only [List.dropWhile_cons, hFirst,
        Bool.false_eq_true, if_false]
      rw [List.takeWhile_append_of_pos hRest,
        List.dropWhile_append_of_pos hRest, hTake, hDrop,
        List.append_nil]

/- The words of texts with blanks between them. -/
theorem words_spaced
    {texts : List (List Char)}
    (hTexts : ∀ x ∈ texts, Number.PlainText x) :
    words (Value.spaced texts) = texts := by
  have hBlank : isBlank ' ' = true := by decide
  induction texts with
  | nil =>
      rw [words_eq]
      rfl
  | cons x texts ih =>
      have hFirst := hTexts x List.mem_cons_self
      have hRest :=
        ih fun y hy => hTexts y (List.mem_cons_of_mem x hy)
      cases texts with
      | nil =>
          have hEnd := words_append hFirst endsWord_nil
          rw [List.append_nil] at hEnd
          rw [Value.spaced_singleton, hEnd,
            show words [] = [] from hRest]
      | cons y texts =>
          rw [Value.spaced_cons_cons,
            words_append hFirst (endsWord_blank _ hBlank),
            words_blank _ hBlank, hRest]

end Text

/- Finite numbers are read back from a string. -/
theorem ScalarType.numbers?_numbers
    {xs : List Single}
    (hFinite : ∀ x ∈ xs, x.isFinite = true) :
    numbers? (String.ofList (Value.numbers xs)) = some xs := by
  have hTexts :
      ∀ text ∈ xs.map (fun x => x.text),
        Number.PlainText text := by
    intro text hText
    obtain ⟨x, -, rfl⟩ := List.mem_map.mp hText
    exact x.plainText_text
  rw [numbers?, String.toList_ofList, Value.numbers,
    Text.words_spaced hTexts]
  clear hTexts
  induction xs with
  | nil => rfl
  | cons x xs ih =>
      have hFirst : number? x.text = some x :=
        Number.Binary.parseFinite?_text (by decide)
          (hFinite x List.mem_cons_self)
      have hRest :=
        ih fun y hy => hFinite y (List.mem_cons_of_mem x hy)
      rw [List.map_cons, List.mapM_cons, hFirst, hRest]
      rfl

end BlockScript
