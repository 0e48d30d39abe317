import Mathlib.Algebra.Order.Field.Rat
import Mathlib.Order.Monotone.Basic
import Mathlib.Tactic.FieldSimp
import Mathlib.Tactic.Linarith
import Mathlib.Tactic.NormNum
import Mathlib.Tactic.Positivity
import Mathlib.Tactic.Ring
import BlockScript.Proofs.Numerals

/-
  This file says what the binary number nearest to a decimal
  numeral is, and shows that numerals are rounded to it. As
  usual the magnitudes of a format are thought to go on
  without a limit; a numeral whose nearest magnitude is beyond
  the limit has no finite number.

  Key definitions include:
    * `Decimal.size`
    * `Format.size`
    * `Format.IsNearest`
    * `Binary.Rounds`

  Key theorems include:
    * `Format.strictMono_units`
    * `Format.IsNearest.unique`
    * `Format.isNearest_nearest`
    * `Format.IsNearest.lt_limit_iff`
    * `Binary.rounds_ofDecimal`
    * `Binary.Rounds.unique`
-/

namespace BlockScript
namespace Number

------------------------------------------------------------
-- Nearest Magnitudes
------------------------------------------------------------

/- The number that a numeral stands for, without its sign. -/
def Decimal.size (d : Decimal) : ℚ :=
  d.coefficient * (10 : ℚ) ^ d.exponent

namespace Format

/-
  The number that a magnitude stands for, also if the format
  has no such magnitude.
-/
def size (f : Format) (k : Nat) : ℚ :=
  f.units k / (2 : ℚ) ^ f.unitScale

/-
  The magnitude nearest to a number. If another one is as
  near, it is the even one of the two.
-/
structure IsNearest
    (f : Format)
    (x : ℚ)
    (k : Nat) : Prop where
  least : ∀ j, |x - f.size k| ≤ |x - f.size j|
  even :
    ∀ j, j ≠ k → |x - f.size j| = |x - f.size k| → k % 2 = 0

end Format

/-
  The binary number that a numeral is rounded to. The sign is
  that of the numeral, for zero too.
-/
inductive Binary.Rounds
    {f : Format}
    (d : Decimal) : Binary f → Prop where
  | finite
      {k : Fin f.limit}
      (hNearest : f.IsNearest d.size k) :
      Rounds d (finite d.negative k)
  | infinite
      {k : Nat}
      (hNearest : f.IsNearest d.size k)
      (hLimit : f.limit ≤ k) :
      Rounds d (infinite d.negative)

------------------------------------------------------------
-- Distances
------------------------------------------------------------

/- Which of two numbers is nearer is seen from their middle. -/
theorem abs_sub_le_abs_sub_iff
    {a b x : ℚ}
    (hLess : a < b) :
    |x - b| ≤ |x - a| ↔ a + b ≤ 2 * x := by
  rcases abs_cases (x - a) with ⟨hA, hSignA⟩ | ⟨hA, hSignA⟩ <;>
    rcases abs_cases (x - b) with ⟨hB, hSignB⟩ | ⟨hB, hSignB⟩ <;>
      rw [hA, hB] <;>
        constructor <;>
          intro h <;>
            linarith

theorem abs_sub_le_abs_sub_iff'
    {a b x : ℚ}
    (hLess : a < b) :
    |x - a| ≤ |x - b| ↔ 2 * x ≤ a + b := by
  have hMirror :=
    abs_sub_le_abs_sub_iff (x := -x) (neg_lt_neg hLess)
  rw [neg_sub_neg, neg_sub_neg, abs_sub_comm a x,
    abs_sub_comm b x] at hMirror
  rw [hMirror]
  constructor <;>
    intro h <;>
      linarith

theorem abs_sub_eq_abs_sub_iff
    {a b x : ℚ}
    (hLess : a < b) :
    |x - a| = |x - b| ↔ a + b = 2 * x := by
  rw [le_antisymm_iff, abs_sub_le_abs_sub_iff' hLess,
    abs_sub_le_abs_sub_iff hLess, le_antisymm_iff, and_comm]

/-
  One number is below another, or is equal to it where the
  even one of two candidates is chosen and `k` is even.
-/
def IsBelow
    {α : Type}
    [LT α]
    (k : Nat)
    (a b : α) : Prop :=
  a < b ∨ a = b ∧ k % 2 = 0

namespace IsBelow

variable {α : Type}
variable [LinearOrder α]
variable {a b c : α}
variable {k m : Nat}

theorem le
    (hBelow : IsBelow k a b) :
    a ≤ b := by
  rcases hBelow with hLess | ⟨hSame, -⟩
  · exact le_of_lt hLess
  · exact le_of_eq hSame

theorem even
    (hBelow : IsBelow k a b)
    (hSame : a = b) :
    k % 2 = 0 := by
  rcases hBelow with hLess | ⟨-, hEven⟩
  · exact absurd hSame hLess.ne
  · exact hEven

theorem trans_le
    (hBelow : IsBelow k a b)
    (hLe : b ≤ c) :
    IsBelow k a c := by
  rcases hBelow with hLess | ⟨rfl, hEven⟩
  · exact .inl (lt_of_lt_of_le hLess hLe)
  · rcases lt_or_eq_of_le hLe with hLess | hSame
    · exact .inl hLess
    · exact .inr ⟨hSame, hEven⟩

theorem le_trans
    (hLe : a ≤ b)
    (hBelow : IsBelow k b c) :
    IsBelow k a c := by
  rcases hBelow with hLess | ⟨rfl, hEven⟩
  · exact .inl (lt_of_le_of_lt hLe hLess)
  · rcases lt_or_eq_of_le hLe with hLess | hSame
    · exact .inl hLess
    · exact .inr ⟨hSame, hEven⟩

/- Order and parity are all that counts. -/
theorem of_iff
    {β : Type}
    [LT β]
    {x y : β}
    (hBelow : IsBelow m x y)
    (hParity : k % 2 = m % 2)
    (hLess : x < y → a < b)
    (hSame : x = y → a = b) :
    IsBelow k a b := by
  rcases hBelow with h | ⟨h, hEven⟩
  · exact .inl (hLess h)
  · exact .inr ⟨hSame h, hParity.trans hEven⟩

end IsBelow

------------------------------------------------------------
-- Sizes of Magnitudes
------------------------------------------------------------

namespace Format

variable {f : Format}

/-
  In every binade magnitudes are whole multiples of one power
  of two, up to the first magnitude of the binade after it.
-/
theorem units_scaled
    {shift m : Nat}
    (hLow : shift = 0 ∨ f.binade ≤ m)
    (hHigh : m ≤ 2 * f.binade) :
    f.units (shift * f.binade + m) = m * 2 ^ shift := by
  have hPositive := f.binade_pos
  rcases Nat.lt_or_ge m f.binade with hLess | hLe
  · obtain rfl : shift = 0 := by omega
    rw [Nat.zero_mul, Nat.zero_add, units, if_pos hLess,
      Nat.pow_zero, Nat.mul_one]
  · rcases Nat.exists_eq_add_of_le hLe with ⟨place, rfl⟩
    have hNot :
        ¬ shift * f.binade + (f.binade + place) < f.binade := by
      omega
    have hSame :
        shift * f.binade + (f.binade + place)
          = place + (shift + 1) * f.binade := by
      ring
    rw [units, if_neg hNot, hSame, Nat.add_mul_mod_self_right,
      Nat.add_mul_div_right _ _ hPositive]
    rcases Nat.lt_or_ge place f.binade with hInside | hNext
    · rw [Nat.mod_eq_of_lt hInside, Nat.div_eq_of_lt hInside,
        Nat.zero_add, Nat.add_sub_cancel]
      rfl
    · obtain rfl : place = f.binade := by omega
      rw [Nat.mod_self, Nat.div_self hPositive, Nat.add_zero,
        Nat.add_sub_cancel_left]
      change f.binade * 2 ^ (shift + 1) = _
      ring

/- Every magnitude has its place in a binade. -/
theorem exists_scaled
    (f : Format)
    (k : Nat) :
    ∃ shift m,
      k = shift * f.binade + m
        ∧ (shift = 0 ∨ f.binade ≤ m)
        ∧ m < 2 * f.binade := by
  have hPositive := f.binade_pos
  have hMod : k % f.binade < f.binade := Nat.mod_lt _ hPositive
  have hPlace := Nat.div_add_mod' k f.binade
  rcases Nat.eq_zero_or_pos (k / f.binade) with hZero | hLater
  · refine ⟨0, k, by omega, .inl rfl, ?_⟩
    rw [hZero] at hPlace
    omega
  · refine ⟨k / f.binade - 1, f.binade + k % f.binade, ?_,
      .inr (by omega), by omega⟩
    have hSplit :
        k / f.binade * f.binade
          = (k / f.binade - 1) * f.binade + f.binade := by
      rw [← Nat.succ_mul, Nat.succ_eq_add_one,
        Nat.sub_add_cancel hLater]
    omega

/- Magnitudes are numbered upward. -/
theorem strictMono_units
    (f : Format) :
    StrictMono f.units := by
  apply strictMono_nat_of_lt_succ
  intro k
  rcases f.exists_scaled k with ⟨shift, m, rfl, hLow, hHigh⟩
  have hNext :
      f.units (shift * f.binade + (m + 1))
        = (m + 1) * 2 ^ shift :=
    units_scaled (by omega) (by omega)
  rw [Nat.add_assoc, hNext, units_scaled hLow (by omega)]
  exact Nat.mul_lt_mul_of_pos_right (Nat.lt_succ_self m)
    (Nat.pow_pos (by decide))

theorem strictMono_size
    (f : Format) :
    StrictMono f.size := by
  intro j k hLess
  have hUnits := f.strictMono_units hLess
  unfold size
  gcongr

------------------------------------------------------------
-- Neighbours
------------------------------------------------------------

/-
  A magnitude is nearest to a number if its two neighbours are
  not nearer.
-/
theorem isNearest_of_neighbours
    {x : ℚ}
    {k : Nat}
    (hBelow :
      ∀ j,
        k = j + 1 → IsBelow k (f.size j + f.size k) (2 * x))
    (hAbove : IsBelow k (2 * x) (f.size k + f.size (k + 1))) :
    f.IsNearest x k := by
  have hMono := f.strictMono_size
  have hLower :
      ∀ j, j < k → IsBelow k (f.size j + f.size k) (2 * x) := by
    intro j hLess
    rcases Nat.exists_eq_add_one_of_ne_zero
      (Nat.ne_zero_of_lt hLess) with ⟨i, rfl⟩
    have hOrder : f.size j ≤ f.size i :=
      hMono.monotone (Nat.le_of_lt_succ hLess)
    exact (hBelow i rfl).le_trans (by gcongr)
  have hUpper :
      ∀ j, k < j → IsBelow k (2 * x) (f.size k + f.size j) := by
    intro j hLess
    have hOrder : f.size (k + 1) ≤ f.size j :=
      hMono.monotone hLess
    exact hAbove.trans_le (by gcongr)
  constructor
  · intro j
    rcases Nat.lt_trichotomy j k with hLess | rfl | hLess
    · rw [abs_sub_le_abs_sub_iff (hMono hLess)]
      exact (hLower j hLess).le
    · exact le_rfl
    · rw [abs_sub_le_abs_sub_iff' (hMono hLess)]
      exact (hUpper j hLess).le
  · intro j hOther hTie
    rcases Nat.lt_or_gt_of_ne hOther with hLess | hLess
    · rw [abs_sub_eq_abs_sub_iff (hMono hLess)] at hTie
      exact (hLower j hLess).even hTie
    · rw [eq_comm, abs_sub_eq_abs_sub_iff (hMono hLess)] at hTie
      exact (hUpper j hLess).even hTie.symm

namespace IsNearest

variable {x : ℚ}
variable {j k : Nat}

/- What is nearest lies on the right side of every middle. -/
theorem add_le
    (hNearest : f.IsNearest x k)
    (hLess : j < k) :
    f.size j + f.size k ≤ 2 * x :=
  (abs_sub_le_abs_sub_iff (f.strictMono_size hLess)).mp
    (hNearest.least j)

theorem le_add
    (hNearest : f.IsNearest x k)
    (hLess : k < j) :
    2 * x ≤ f.size k + f.size j :=
  (abs_sub_le_abs_sub_iff' (f.strictMono_size hLess)).mp
    (hNearest.least j)

/-
  Of two nearest magnitudes the number is the middle. There is
  no other magnitude between them, so not both are even.
-/
theorem not_lt
    (hNearest : f.IsNearest x k)
    (hOther : f.IsNearest x j) :
    ¬ j < k := by
  intro hLess
  have hTie : f.size j + f.size k = 2 * x :=
    le_antisymm (hNearest.add_le hLess) (hOther.le_add hLess)
  have hSame :=
    (abs_sub_eq_abs_sub_iff (f.strictMono_size hLess)).mpr hTie
  have hEven := hNearest.even j hLess.ne hSame
  have hEven' := hOther.even k hLess.ne' hSame.symm
  have hBetween : j + 1 < k := by
    omega
  have hMiddle := f.strictMono_size (Nat.lt_succ_self j)
  have hNear := hNearest.add_le hBetween
  linarith

theorem unique
    (hNearest : f.IsNearest x k)
    (hOther : f.IsNearest x j) :
    k = j :=
  Nat.le_antisymm (Nat.not_lt.mp (hNearest.not_lt hOther))
    (Nat.not_lt.mp (hOther.not_lt hNearest))

end IsNearest

end Format

------------------------------------------------------------
-- Rounded Quotients
------------------------------------------------------------

/-
  A quotient is rounded by no more than one half, and by less
  unless the result is even.
-/
theorem roundDiv_near
    {divisor : Nat}
    (dividend : Nat)
    (hDivisor : 0 < divisor) :
    let m := roundDiv .even dividend divisor
    IsBelow m (2 * (m * divisor)) (2 * dividend + divisor)
      ∧ IsBelow m (2 * dividend)
          (2 * (m * divisor) + divisor) := by
  have hParts := Nat.div_add_mod' dividend divisor
  have hRest := Nat.mod_lt dividend hDivisor
  unfold IsBelow roundDiv roundsUp
  generalize dividend / divisor = floor at *
  generalize dividend % divisor = rest at *
  rcases Nat.lt_trichotomy (2 * rest) divisor with
    hLess | hHalf | hMore
  · simp only [Nat.compare_eq_lt.mpr hLess, Bool.false_eq_true,
      if_false]
    omega
  · simp only [Nat.compare_eq_eq.mpr hHalf, beq_iff_eq]
    split
    · simp only [Nat.add_mul, Nat.one_mul]
      omega
    · omega
  · simp only [Nat.compare_eq_gt.mpr hMore, if_true, Nat.add_mul,
      Nat.one_mul]
    omega

namespace Format

variable {f : Format}

/- Neighbours of a magnitude, compared with a quotient. -/
theorem isNearest_div
    {dividend divisor k : Nat}
    (hDivisor : 0 < divisor)
    (hBelow :
      ∀ j,
        k = j + 1 →
          IsBelow k ((f.units j + f.units k) * divisor)
            (2 * (dividend * 2 ^ f.unitScale)))
    (hAbove :
      IsBelow k (2 * (dividend * 2 ^ f.unitScale))
        ((f.units k + f.units (k + 1)) * divisor)) :
    f.IsNearest (dividend / divisor) k := by
  have hScale : (0 : ℚ) < 2 ^ f.unitScale * divisor := by
    positivity
  have hSum :
      ∀ i j,
        f.size i + f.size j
          = ((f.units i + f.units j) * divisor : ℕ)
              / (2 ^ f.unitScale * divisor) := by
    intro i j
    unfold size
    push_cast
    field_simp
  have hTwice :
      2 * ((dividend : ℚ) / divisor)
        = (2 * (dividend * 2 ^ f.unitScale) : ℕ)
            / (2 ^ f.unitScale * divisor) := by
    push_cast
    field_simp
  have hCast :
      ∀ {a b : Nat},
        IsBelow k a b →
          IsBelow k ((a : ℚ) / (2 ^ f.unitScale * divisor))
            (b / (2 ^ f.unitScale * divisor)) := by
    intro a b hNat
    apply hNat.of_iff rfl
    · intro hLess
      exact div_lt_div_of_pos_right (by exact_mod_cast hLess)
        hScale
    · rintro rfl
      rfl
  apply isNearest_of_neighbours
  · intro j hNext
    rw [hSum, hTwice]
    exact hCast (hBelow j hNext)
  · rw [hSum, hTwice]
    exact hCast hAbove

/-
  The binade of a quotient: without a shift the quotient is
  in the first two, which have the same unit.
-/
theorem shift_bounds
    {divisor : Nat}
    (f : Format)
    (scaled : Nat)
    (hDivisor : 0 < divisor) :
    let shift := (scaled / divisor).log2 - f.fractionBits
    (shift = 0 ∨ f.binade * (divisor * 2 ^ shift) ≤ scaled)
      ∧ scaled < 2 * f.binade * (divisor * 2 ^ shift) := by
  intro shift
  have hBinade : f.binade = 2 ^ f.fractionBits := rfl
  have hParts := Nat.div_add_mod' scaled divisor
  have hRest := Nat.mod_lt scaled hDivisor
  constructor
  · rcases Nat.eq_zero_or_pos shift with hZero | hShift
    · exact .inl hZero
    · right
      have hLog :
          (scaled / divisor).log2 = f.fractionBits + shift := by
        omega
      have hSome : scaled / divisor ≠ 0 := by
        intro hNone
        rw [hNone, Nat.log2_zero] at hLog
        omega
      have hFloor := Nat.log2_self_le hSome
      rw [hLog, Nat.pow_add, ← hBinade] at hFloor
      calc f.binade * (divisor * 2 ^ shift)
          = f.binade * 2 ^ shift * divisor := by ring
        _ ≤ scaled / divisor * divisor :=
          Nat.mul_le_mul_right _ hFloor
        _ ≤ scaled := Nat.div_mul_le_self _ _
  · have hFloor := Nat.lt_log2_self (n := scaled / divisor)
    have hPower :
        2 ^ ((scaled / divisor).log2 + 1)
          ≤ 2 * f.binade * 2 ^ shift := by
      rw [hBinade, ← Nat.pow_succ', ← Nat.pow_add]
      exact Nat.pow_le_pow_right (by decide) (by omega)
    have hNext : scaled / divisor + 1 ≤ 2 * f.binade * 2 ^ shift :=
      Nat.le_trans hFloor hPower
    calc scaled
        < (scaled / divisor + 1) * divisor := by
          rw [Nat.add_mul, Nat.one_mul]
          omega
      _ ≤ 2 * f.binade * 2 ^ shift * divisor :=
          Nat.mul_le_mul_right _ hNext
      _ = 2 * f.binade * (divisor * 2 ^ shift) := by ring

/- A quotient is rounded inside its binade. -/
theorem rounded_bounds
    {scaled step m shift : Nat}
    (hStep : 0 < step)
    (hLow : shift = 0 ∨ f.binade * step ≤ scaled)
    (hHigh : scaled < 2 * f.binade * step)
    (hBelow : 2 * (m * step) ≤ 2 * scaled + step)
    (hAbove : 2 * scaled ≤ 2 * (m * step) + step) :
    (shift = 0 ∨ f.binade ≤ m) ∧ m ≤ 2 * f.binade := by
  constructor
  · rcases hLow with hZero | hLe
    · exact .inl hZero
    · right
      by_contra hLess
      have hNext : (m + 1) * step ≤ f.binade * step :=
        Nat.mul_le_mul_right _ (by omega)
      rw [Nat.add_mul, Nat.one_mul] at hNext
      omega
  · by_contra hMore
    have hNext : (2 * f.binade + 1) * step ≤ m * step :=
      Nat.mul_le_mul_right _ (by omega)
    rw [Nat.add_mul, Nat.one_mul] at hNext
    omega

/-
  The magnitude after a rounded quotient is at least one step
  away. In the next binade it is further.
-/
theorem le_units_succ
    {shift m : Nat}
    (hLow : shift = 0 ∨ f.binade ≤ m)
    (hHigh : m ≤ 2 * f.binade) :
    (m + 1) * 2 ^ shift
      ≤ f.units (shift * f.binade + m + 1) := by
  rcases Nat.lt_or_eq_of_le hHigh with hLess | rfl
  · rw [Nat.add_assoc, units_scaled (by omega) hLess]
  · have hPositive := f.binade_pos
    have hSame :
        shift * f.binade + 2 * f.binade + 1
          = (shift + 1) * f.binade + (f.binade + 1) := by
      ring
    rw [hSame, units_scaled (.inr (by omega)) (by omega),
      Nat.pow_succ', ← Nat.mul_assoc]
    exact Nat.mul_le_mul_right _ (by omega)

/-
  The magnitude before a rounded quotient is one step away,
  except that it is less at the start of a binade. There the
  quotient itself is not below the binade.
-/
theorem isBelow_rounded
    {scaled divisor shift m j : Nat}
    (hDivisor : 0 < divisor)
    (hLow : shift = 0 ∨ f.binade * (divisor * 2 ^ shift) ≤ scaled)
    (hFloor : shift = 0 ∨ f.binade ≤ m)
    (hCeil : m ≤ 2 * f.binade)
    (hUpper :
      IsBelow m (2 * (m * (divisor * 2 ^ shift)))
        (2 * scaled + divisor * 2 ^ shift))
    (hNext : shift * f.binade + m = j + 1) :
    IsBelow m
      ((f.units j + f.units (shift * f.binade + m)) * divisor)
      (2 * scaled) := by
  have hUnits := units_scaled hFloor hCeil
  by_cases hInside : shift = 0 ∨ f.binade < m
  · have hSome : m ≠ 0 := by
      rintro rfl
      rcases hInside with rfl | hMore <;> omega
    rcases Nat.exists_eq_add_one_of_ne_zero hSome with ⟨i, rfl⟩
    obtain rfl : j = shift * f.binade + i := by omega
    have hBefore : f.units (shift * f.binade + i) = i * 2 ^ shift :=
      units_scaled (by omega) (by omega)
    have hSum :
        (f.units (shift * f.binade + i)
              + f.units (shift * f.binade + (i + 1))) * divisor
            + divisor * 2 ^ shift
          = 2 * ((i + 1) * (divisor * 2 ^ shift)) := by
      rw [hBefore, hUnits]
      ring
    apply hUpper.of_iff rfl <;> omega
  · obtain rfl : m = f.binade := by omega
    have hLe := hLow.resolve_left (by omega)
    have hOrder : j < shift * f.binade + f.binade := by
      omega
    have hLess := f.strictMono_units hOrder
    have hSum :
        (f.units j + f.units (shift * f.binade + f.binade))
            * divisor
          < 2 * (f.units (shift * f.binade + f.binade)
              * divisor) := by
      rw [Nat.add_mul, Nat.two_mul]
      exact Nat.add_lt_add_right
        (Nat.mul_lt_mul_of_pos_right hLess hDivisor) _
    have hWhole :
        f.units (shift * f.binade + f.binade) * divisor
          = f.binade * (divisor * 2 ^ shift) := by
      rw [hUnits]
      ring
    exact .inl (by omega)

/- A quotient rounded in its binade is the nearest magnitude. -/
theorem isNearest_of_rounded
    {dividend divisor shift m : Nat}
    (hEven : f.binade % 2 = 0)
    (hDivisor : 0 < divisor)
    (hLow :
      shift = 0
        ∨ f.binade * (divisor * 2 ^ shift)
            ≤ dividend * 2 ^ f.unitScale)
    (hHigh :
      dividend * 2 ^ f.unitScale
        < 2 * f.binade * (divisor * 2 ^ shift))
    (hUpper :
      IsBelow m (2 * (m * (divisor * 2 ^ shift)))
        (2 * (dividend * 2 ^ f.unitScale) + divisor * 2 ^ shift))
    (hLower :
      IsBelow m (2 * (dividend * 2 ^ f.unitScale))
        (2 * (m * (divisor * 2 ^ shift))
          + divisor * 2 ^ shift)) :
    f.IsNearest (dividend / divisor) (shift * f.binade + m) := by
  have hStep : 0 < divisor * 2 ^ shift :=
    Nat.mul_pos hDivisor (Nat.pow_pos (by decide))
  rcases rounded_bounds hStep hLow hHigh hUpper.le hLower.le with
    ⟨hFloor, hCeil⟩
  have hParity : (shift * f.binade + m) % 2 = m % 2 := by
    rw [Nat.add_mod, Nat.mul_mod, hEven, Nat.mul_zero,
      Nat.zero_mod, Nat.zero_add, Nat.mod_mod]
  apply isNearest_div hDivisor
  · intro j hNext
    have hBelow :=
      isBelow_rounded hDivisor hLow hFloor hCeil hUpper hNext
    exact hBelow.of_iff hParity id id
  · have hAfter := le_units_succ hFloor hCeil
    refine (hLower.of_iff hParity id id).trans_le ?_
    calc 2 * (m * (divisor * 2 ^ shift)) + divisor * 2 ^ shift
        = (m * 2 ^ shift + (m + 1) * 2 ^ shift) * divisor := by
          ring
      _ ≤ _ := by
          rw [units_scaled hFloor hCeil]
          gcongr

/- Rounding a quotient gives the nearest magnitude. -/
theorem isNearest_nearest
    {divisor : Nat}
    (dividend : Nat)
    (hBits : 0 < f.fractionBits)
    (hDivisor : 0 < divisor) :
    f.IsNearest (dividend / divisor)
      (f.nearest dividend divisor) := by
  have hEven : f.binade % 2 = 0 := by
    rcases Nat.exists_eq_add_of_lt hBits with ⟨n, hBits⟩
    change 2 ^ f.fractionBits % 2 = 0
    rw [hBits, Nat.pow_succ, Nat.mul_mod_left]
  rcases f.shift_bounds (dividend * 2 ^ f.unitScale) hDivisor with
    ⟨hLow, hHigh⟩
  have hStep :=
    Nat.mul_pos hDivisor
      (Nat.pow_pos (a := 2)
        (n := (dividend * 2 ^ f.unitScale / divisor).log2
          - f.fractionBits) (by decide))
  rcases roundDiv_near (dividend * 2 ^ f.unitScale) hStep with
    ⟨hUpper, hLower⟩
  exact isNearest_of_rounded hEven hDivisor hLow hHigh hUpper
    hLower

theorem exists_isNearest
    {x : ℚ}
    (hBits : 0 < f.fractionBits)
    (hPositive : 0 ≤ x) :
    ∃ k, f.IsNearest x k := by
  have hNumber : x = (x.num.toNat : ℚ) / x.den := by
    have hWhole : ((x.num.toNat : ℤ) : ℚ) = x.num := by
      rw [Int.toNat_of_nonneg (Rat.num_nonneg.mpr hPositive)]
    rw [← Int.cast_natCast, hWhole, Rat.num_div_den]
  rw [hNumber]
  exact ⟨_, isNearest_nearest _ hBits x.den_pos⟩

------------------------------------------------------------
-- Extremes
------------------------------------------------------------

/- The unit comes after zero. -/
theorem isNearest_zero
    {x : ℚ}
    (hBits : 0 < f.fractionBits)
    (hSmall : 2 * (x * 2 ^ f.unitScale) ≤ 1) :
    f.IsNearest x 0 := by
  have hBinade : 1 < f.binade := Nat.one_lt_two_pow hBits.ne'
  have hScale : (0 : ℚ) < 2 ^ f.unitScale := by
    positivity
  have hZero : f.size 0 = 0 := by
    simp [size, units, f.binade_pos]
  have hOne : f.size 1 = 1 / 2 ^ f.unitScale := by
    simp [size, units, hBinade]
  have hHalf : 2 * x ≤ f.size 0 + f.size (0 + 1) := by
    rw [hZero, Nat.zero_add, hOne, zero_add, le_div_iff₀ hScale,
      mul_assoc]
    exact hSmall
  apply isNearest_of_neighbours
  · intro j hNone
    exact absurd hNone (by omega)
  · rcases lt_or_eq_of_le hHalf with hLess | hSame
    · exact .inl hLess
    · exact .inr ⟨hSame, rfl⟩

/- No magnitude of a format is that large. -/
theorem size_limit_le
    (f : Format) :
    f.size f.limit ≤ 2 ^ (2 ^ f.exponentBits) := by
  have hPositive := f.binade_pos
  have hPowers : 1 ≤ 2 ^ f.exponentBits :=
    Nat.pow_pos (by decide)
  have hUnits :
      f.units f.limit
        ≤ f.binade * 2 ^ (2 ^ f.exponentBits) := by
    have hLast :
        f.units
            ((2 ^ f.exponentBits - 1) * f.binade + f.binade)
          = f.binade * 2 ^ (2 ^ f.exponentBits - 1) :=
      units_scaled (.inr (Nat.le_refl _)) (by omega)
    calc f.units f.limit
        ≤ f.units
            ((2 ^ f.exponentBits - 1) * f.binade + f.binade) :=
          f.strictMono_units.monotone (Nat.le_add_right _ _)
      _ = f.binade * 2 ^ (2 ^ f.exponentBits - 1) := hLast
      _ ≤ f.binade * 2 ^ (2 ^ f.exponentBits) :=
          Nat.mul_le_mul_left _
            (Nat.pow_le_pow_right (by decide) (Nat.sub_le _ _))
  have hScale : f.binade ≤ 2 ^ f.unitScale :=
    Nat.pow_le_pow_right (by decide) (Nat.le_add_left _ _)
  have hBound :
      f.units f.limit
        ≤ 2 ^ f.unitScale * 2 ^ (2 ^ f.exponentBits) :=
    Nat.le_trans hUnits (Nat.mul_le_mul_right _ hScale)
  have hCast :
      (f.units f.limit : ℚ)
        ≤ 2 ^ f.unitScale * 2 ^ (2 ^ f.exponentBits) := by
    exact_mod_cast hBound
  unfold size
  rw [div_le_iff₀ (by positivity), mul_comm]
  exact hCast

/- What is nearest to a large number is large. -/
theorem IsNearest.le_of_size_le
    {x : ℚ}
    {j k : Nat}
    (hNearest : f.IsNearest x k)
    (hLe : f.size j ≤ x) :
    j ≤ k := by
  by_contra hLess
  have hOrder := f.strictMono_size (Nat.lt_of_not_le hLess)
  have hMiddle := hNearest.le_add (Nat.lt_of_not_le hLess)
  linarith

/-
  A format has the magnitude nearest to a number if and only
  if the number is below the middle between its last magnitude
  and the one that would come next.
-/
theorem IsNearest.lt_limit_iff
    {x : ℚ}
    {k : Nat}
    (hSome : 0 < f.limit)
    (hEven : f.limit % 2 = 0)
    (hNearest : f.IsNearest x k) :
    k < f.limit
      ↔ 2 * x < f.size (f.limit - 1) + f.size f.limit := by
  have hMono := f.strictMono_size
  constructor
  · intro hLess
    have hMiddle := hNearest.le_add hLess
    rcases Nat.lt_or_eq_of_le (Nat.le_sub_one_of_lt hLess) with
      hBefore | rfl
    · have hOrder := hMono hBefore
      linarith
    · refine lt_of_le_of_ne hMiddle fun hTie => ?_
      have hSame := (abs_sub_eq_abs_sub_iff (hMono hLess)).mpr
        hTie.symm
      have hParity :=
        hNearest.even f.limit (by omega) hSame.symm
      omega
  · intro hBelow
    by_contra hBeyond
    have hLe : f.limit ≤ k := Nat.le_of_not_lt hBeyond
    have hMiddle :=
      hNearest.add_le (show f.limit - 1 < k by omega)
    have hOrder := hMono.monotone hLe
    linarith

end Format

------------------------------------------------------------
-- Numerals
------------------------------------------------------------

namespace Binary

variable {f : Format}
variable {d : Decimal}

theorem rounds_ofMagnitude
    {k : Nat}
    (hNearest : f.IsNearest d.size k) :
    (ofMagnitude d.negative k : Binary f).Rounds d := by
  by_cases hLimit : k < f.limit
  · rw [ofMagnitude_of_lt _ hLimit]
    exact .finite hNearest
  · rw [ofMagnitude, dif_neg hLimit]
    exact .infinite hNearest (Nat.le_of_not_lt hLimit)

theorem rounds_ofRatio
    {dividend divisor : Nat}
    (hBits : 0 < f.fractionBits)
    (hDivisor : 0 < divisor)
    (hSize : d.size = dividend / divisor) :
    (ofRatio d.negative dividend divisor : Binary f).Rounds d := by
  apply rounds_ofMagnitude
  rw [hSize]
  exact Format.isNearest_nearest dividend hBits hDivisor

/- A numeral with a large power of ten is not finite. -/
theorem rounds_infinite
    (hBits : 0 < f.fractionBits)
    (hLarge : 2 ^ (2 ^ f.exponentBits) ≤ d.size) :
    (infinite d.negative : Binary f).Rounds d := by
  have hPositive : (0 : ℚ) ≤ d.size :=
    le_trans (by positivity) hLarge
  rcases Format.exists_isNearest hBits hPositive with
    ⟨k, hNearest⟩
  exact .infinite hNearest
    (hNearest.le_of_size_le (le_trans f.size_limit_le hLarge))

/- A numeral with a small power of ten is rounded to zero. -/
theorem rounds_zero
    (coefficient power : Nat)
    (hBits : 0 < f.fractionBits)
    (hSize : d.size = coefficient / (10 ^ power : Nat))
    (hSmall :
      coefficient.log2 + f.unitScale + 2 ≤ 3 * power) :
    (ofMagnitude d.negative 0 : Binary f).Rounds d := by
  have hBelow : coefficient ≤ 2 ^ (coefficient.log2 + 1) :=
    Nat.le_of_lt Nat.lt_log2_self
  have hTens : 2 * (coefficient * 2 ^ f.unitScale) ≤ 10 ^ power :=
    calc 2 * (coefficient * 2 ^ f.unitScale)
        ≤ 2 * (2 ^ (coefficient.log2 + 1) * 2 ^ f.unitScale) := by
          gcongr
      _ = 2 ^ (coefficient.log2 + f.unitScale + 2) := by ring
      _ ≤ 2 ^ (3 * power) :=
          Nat.pow_le_pow_right (by decide) hSmall
      _ = 8 ^ power := by rw [Nat.pow_mul]
      _ ≤ 10 ^ power := Nat.pow_le_pow_left (by decide) _
  have hCast :
      2 * ((coefficient : ℚ) * 2 ^ f.unitScale)
        ≤ (10 ^ power : Nat) := by
    exact_mod_cast hTens
  have hPositive : (0 : ℚ) < (10 ^ power : Nat) := by
    positivity
  apply rounds_ofMagnitude
  apply Format.isNearest_zero hBits
  calc 2 * (d.size * 2 ^ f.unitScale)
      = 2 * ((coefficient : ℚ) * 2 ^ f.unitScale)
          / (10 ^ power : Nat) := by
        rw [hSize]
        ring
    _ ≤ 1 := (div_le_one hPositive).mpr hCast

/- Numerals are rounded to the nearest number. -/
theorem rounds_ofDecimal
    (d : Decimal)
    (hBits : 0 < f.fractionBits) :
    (ofDecimal d : Binary f).Rounds d := by
  rcases d with ⟨negative, coefficient, exponent⟩
  unfold ofDecimal
  simp only
  by_cases hZero : coefficient = 0
  · rw [if_pos hZero]
    refine rounds_zero 0 (f.unitScale + 2) hBits ?_ ?_
    · simp [Decimal.size, hZero]
    · rw [Nat.log2_zero]
      omega
  · rw [if_neg hZero]
    cases exponent with
    | ofNat power =>
        have hSize :
            Decimal.size ⟨negative, coefficient, .ofNat power⟩
              = (coefficient * 10 ^ power : Nat) / (1 : Nat) := by
          simp [Decimal.size]
        simp only
        split
        · rename_i hLarge
          apply rounds_infinite hBits
          have hTens :
              2 ^ (2 ^ f.exponentBits) ≤ coefficient * 10 ^ power :=
            calc 2 ^ (2 ^ f.exponentBits)
                ≤ 2 ^ power :=
                  Nat.pow_le_pow_right (by decide)
                    (Nat.le_of_lt hLarge)
              _ ≤ 10 ^ power := Nat.pow_le_pow_left (by decide) _
              _ ≤ coefficient * 10 ^ power :=
                  Nat.le_mul_of_pos_left _ (by omega)
          rw [hSize, Nat.cast_one, div_one]
          exact_mod_cast hTens
        · exact rounds_ofRatio hBits Nat.one_pos hSize
    | negSucc n =>
        have hSize :
            Decimal.size ⟨negative, coefficient, .negSucc n⟩
              = coefficient / (10 ^ (n + 1) : Nat) := by
          simp [Decimal.size, zpow_negSucc, div_eq_mul_inv]
        simp only
        split
        · rename_i hSmall
          exact rounds_zero _ _ hBits hSize hSmall
        · exact rounds_ofRatio hBits (Nat.pow_pos (by decide))
            hSize

/- A numeral is rounded to one number. -/
theorem Rounds.unique
    {x y : Binary f}
    (hRounds : x.Rounds d)
    (hOther : y.Rounds d) :
    x = y := by
  cases hRounds with
  | finite hNearest =>
      cases hOther with
      | finite hNearest' =>
          rw [Fin.ext (hNearest.unique hNearest')]
      | infinite hNearest' hLimit =>
          rw [← hNearest.unique hNearest'] at hLimit
          exact absurd (Fin.is_lt _) (Nat.not_lt.mpr hLimit)
  | infinite hNearest hLimit =>
      cases hOther with
      | finite hNearest' =>
          rw [hNearest.unique hNearest'] at hLimit
          exact absurd (Fin.is_lt _) (Nat.not_lt.mpr hLimit)
      | infinite => rfl

/- Which numerals have a finite number. -/
theorem Rounds.isFinite_iff
    {x : Binary f}
    (hSome : 0 < f.limit)
    (hEven : f.limit % 2 = 0)
    (hRounds : x.Rounds d) :
    x.isFinite = true
      ↔ 2 * d.size < f.size (f.limit - 1) + f.size f.limit := by
  cases hRounds with
  | finite hNearest =>
      rw [← hNearest.lt_limit_iff hSome hEven]
      exact iff_of_true rfl (Fin.is_lt _)
  | infinite hNearest hLimit =>
      rw [← hNearest.lt_limit_iff hSome hEven]
      exact iff_of_false Bool.false_ne_true
        (Nat.not_lt.mpr hLimit)

end Binary

/-
  A numeral has a finite number of 32 bits if and only if it
  is below the middle between the largest one and the power of
  two that would come next.
-/
theorem Single.isFinite_iff
    {d : Decimal}
    {x : Single}
    (hRounds : x.Rounds d) :
    x.isFinite = true ↔ d.size < 2 ^ 128 - 2 ^ 103 := by
  have hSize :
      ∀ {k y : Nat},
        Format.single.units k = y * 2 ^ 149 →
          Format.single.size k = y := by
    intro k y hUnits
    rw [Format.size, hUnits,
      show Format.single.unitScale = 149 from rfl, Nat.cast_mul,
      Nat.cast_pow, Nat.cast_ofNat]
    exact mul_div_cancel_right₀ _ (by positivity)
  have hLast :
      Format.single.size (Format.single.limit - 1)
        = (2 ^ 128 - 2 ^ 104 : Nat) :=
    hSize (by decide +kernel)
  have hNext :
      Format.single.size Format.single.limit = (2 ^ 128 : Nat) :=
    hSize (by decide +kernel)
  have hMiddle :
      Format.single.size (Format.single.limit - 1)
          + Format.single.size Format.single.limit
        = 2 * (2 ^ 128 - 2 ^ 103) := by
    rw [hLast, hNext]
    norm_num
  rw [hRounds.isFinite_iff (by decide) (by decide), hMiddle]
  constructor
  · intro h
    linarith
  · intro h
    linarith

end Number
end BlockScript
