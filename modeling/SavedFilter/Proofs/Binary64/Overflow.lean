import Mathlib.Algebra.Order.Field.Power
import Mathlib.Tactic.FieldSimp
import Mathlib.Tactic.NormNum
import SavedFilter.Proofs.Binary64.Nearest

/-!
# Numbers too great for a double

Half a step above the greatest finite double begin the numbers that are rounded to infinity; the
middle itself is one of them, as its even neighbour is the infinite one.

* `roundToEven_le_iff`                where rounding goes beyond an odd number;
* `nearestMagnitude_lt_infinite_iff`  the quotients that are nearest to a finite double;
* `magnitudeOf_lt_infinite_iff`       the decimal numbers that are.
-/

namespace SavedFilter.Binary64
open Text

/-- the middle between the greatest finite double and the power of two that would come next -/
def finiteLimit : Nat := 2 ^ 1024 - 2 ^ 970

/-- a quotient is rounded beyond an odd number from the next half on -/
theorem roundToEven_le_iff {num den n : Nat} (hd : 0 < den) (hn : n % 2 = 1) :
    roundToEven num den ≤ n ↔ 2 * num < den * (2 * n + 1) := by
  have hsplit := Nat.div_add_mod num den
  have hrest := Nat.mod_lt num hd
  have hdouble : den * (2 * n + 1) = 2 * (den * n) + den := by ring
  rw [hdouble]
  rcases Nat.lt_trichotomy (num / den) n with hlt | heq | hgt
  · have hround := roundToEven_le num den
    have hmul := Nat.mul_le_mul_left den (Nat.succ_le_of_lt hlt)
    rw [Nat.mul_succ] at hmul
    constructor <;> intro <;> omega
  · rw [heq] at hsplit
    simp only [roundToEven, heq]
    split_ifs <;> omega
  · have hround := div_le_roundToEven num den
    have hmul := Nat.mul_le_mul_left den (Nat.succ_le_of_lt hgt)
    rw [Nat.mul_succ] at hmul
    constructor <;> intro <;> omega

/-- The limit in units has 54 binary digits, all of them ones, and then zeros.  How many zeros is
kept behind a variable, as no power of this size is to be computed in a proof. -/
theorem finiteLimit_mul_unitsInOne : ∃ k, k = 2044 ∧
    finiteLimit * unitsInOne = (2 ^ 54 - 1) * 2 ^ k := by
  obtain ⟨k, hk, hunits⟩ := unitsInOne_eq
  have hones (j : Nat) : 2 ^ (54 + j) - 2 ^ j = (2 ^ 54 - 1) * 2 ^ j := by
    rw [Nat.pow_add, Nat.sub_mul, Nat.one_mul]
  refine ⟨970 + k, by omega, ?_⟩
  rw [finiteLimit, show 1024 = 54 + 970 from rfl, hones, hunits, Nat.mul_assoc, Nat.pow_add]

/-- the limit is greater than the integers that are read, and less than a number of 768 digits -/
theorem finiteLimit_bounds : 2 ^ 64 < finiteLimit ∧ finiteLimit ≤ tenTo 767 := by decide +kernel

theorem lt_two_pow_of_log2_lt {x k : Nat} (h : x.log2 < k) : x < 2 ^ k :=
  lt_of_lt_of_le Nat.lt_log2_self (Nat.pow_le_pow_right (by omega) h)

theorem two_pow_le_of_lt_log2 {x k : Nat} (h : k < x.log2) : 2 ^ (k + 1) ≤ x := by
  have hx : x ≠ 0 := by
    rintro rfl
    exact absurd h (by simp)
  exact (Nat.le_log2 hx).mp h

/-- the magnitude of a quotient of less than `2 ^ 2097` units -/
theorem nearestMagnitude_le_of_log2 {num den : Nat}
    (h : (num * unitsInOne / den).log2 < 2097) :
    nearestMagnitude num den ≤ 2046 * exponentWeight := by
  simp only [nearestMagnitude]
  have hround := roundToEven_le (num * unitsInOne)
    (den <<< (Nat.log2 (num * unitsInOne / den) - 52))
  rw [Nat.shiftLeft_eq, ← Nat.div_div_eq_div_mul] at hround
  rw [Nat.shiftLeft_eq]
  generalize num * unitsInOne / den = x at h hround ⊢
  have hdigits : x / 2 ^ (x.log2 - 52) < 2 * exponentWeight := by
    rw [Nat.div_lt_iff_lt_mul (Nat.two_pow_pos _), exponentWeight_eq, ← Nat.pow_succ',
      ← Nat.pow_add]
    exact lt_two_pow_of_log2_lt (by omega)
  have hs : (x.log2 - 52) * exponentWeight ≤ 2044 * exponentWeight :=
    Nat.mul_le_mul_right _ (by omega)
  omega

/-- The last step below infinity: what is rounded has 53 binary digits, or is carried to 54. -/
theorem nearestMagnitude_lt_infinite_iff_of_log2 {num den k : Nat} (hd : 0 < den) (hk : k = 2044)
    (hlog : (num * unitsInOne / den).log2 = 53 + k) :
    nearestMagnitude num den < infinite ↔ num * unitsInOne < den * ((2 ^ 54 - 1) * 2 ^ k) := by
  have hones : 2 * (2 * exponentWeight - 1) + 1 = 2 ^ 54 - 1 := by decide
  have hinfinite : infinite = 2 * exponentWeight + (k + 1) * exponentWeight := by rw [hk]; rfl
  have hs : 53 + k - 52 = k + 1 := by omega
  simp only [nearestMagnitude, hlog, Nat.shiftLeft_eq, hs]
  generalize num * unitsInOne = t
  have hdouble : den * 2 ^ (k + 1) * (2 ^ 54 - 1) = 2 * (den * ((2 ^ 54 - 1) * 2 ^ k)) := by
    ring
  have hround : roundToEven t (den * 2 ^ (k + 1)) ≤ 2 * exponentWeight - 1 ↔
      t < den * ((2 ^ 54 - 1) * 2 ^ k) := by
    rw [roundToEven_le_iff (Nat.mul_pos hd (Nat.two_pow_pos _)) (by decide), hones, hdouble,
      Nat.mul_lt_mul_left Nat.two_pos]
  rw [← hround, hinfinite, Nat.add_lt_add_iff_right]
  exact Nat.lt_iff_le_pred (by decide)

/-- **A quotient is nearest to a finite double if and only if it is less than the limit.** -/
theorem nearestMagnitude_lt_infinite_iff {num den : Nat} (hd : 0 < den) :
    nearestMagnitude num den < infinite ↔ num < den * finiteLimit := by
  have hi : infinite = 2047 * exponentWeight := rfl
  have hw : 0 < exponentWeight := by decide
  have hunits : num < den * finiteLimit ↔ num * unitsInOne < den * (finiteLimit * unitsInOne) := by
    rw [← Nat.mul_assoc, Nat.mul_lt_mul_right unitsInOne_pos]
  obtain ⟨k, hk, hlimit⟩ := finiteLimit_mul_unitsInOne
  rw [hunits, hlimit]
  rcases Nat.lt_trichotomy (num * unitsInOne / den).log2 (53 + k) with hlt | heq | hgt
  · -- both sides are far below
    have hmagnitude := nearestMagnitude_le_of_log2 (hlt.trans_eq (by omega))
    have hquotient : num * unitsInOne / den < (2 ^ 54 - 1) * 2 ^ k :=
      calc num * unitsInOne / den < 2 ^ (53 + k) := lt_two_pow_of_log2_lt hlt
        _ = 2 ^ 53 * 2 ^ k := Nat.pow_add 2 53 k
        _ ≤ (2 ^ 54 - 1) * 2 ^ k := Nat.mul_le_mul_right _ (by decide)
    refine iff_of_true (by omega) ?_
    exact lt_of_lt_of_le (Nat.lt_mul_div_succ _ hd) (Nat.mul_le_mul_left _ hquotient)
  · exact nearestMagnitude_lt_infinite_iff_of_log2 hd hk heq
  · -- both sides are beyond
    have hquotient : 2 ^ (53 + k + 1) ≤ num * unitsInOne / den := two_pow_le_of_lt_log2 hgt
    have hmagnitude := infinite_le_nearestMagnitude (by omega) hquotient
    refine iff_of_false hmagnitude.not_gt (Nat.not_lt.mpr ?_)
    calc den * ((2 ^ 54 - 1) * 2 ^ k) ≤ den * (2 ^ 54 * 2 ^ k) :=
          Nat.mul_le_mul_left _ (Nat.mul_le_mul_right _ (by decide))
      _ = den * 2 ^ (53 + k + 1) := by ring
      _ ≤ den * (num * unitsInOne / den) := Nat.mul_le_mul_left _ hquotient
      _ ≤ num * unitsInOne := Nat.mul_div_le _ _

/-! ## decimal numbers -/

theorem ten_zpow_eq (e : Int) : (10 : ℚ) ^ e = tenTo e.toNat / tenTo (-e).toNat := by
  rcases Int.le_total 0 e with he | he
  · obtain ⟨n, rfl⟩ := Int.eq_ofNat_of_zero_le he
    have hneg : (-(n : Int)).toNat = 0 := by omega
    rw [hneg, tenTo_zero, Int.toNat_natCast, zpow_natCast, tenTo_eq]
    push_cast
    rw [div_one]
  · obtain ⟨n, hn⟩ := Int.exists_eq_neg_ofNat he
    obtain rfl : e = -(n : Int) := hn
    have hneg : (-(n : Int)).toNat = 0 := by omega
    rw [hneg, tenTo_zero, neg_neg, Int.toNat_natCast, zpow_neg, zpow_natCast, tenTo_eq]
    push_cast
    rw [one_div]

theorem nearestTo_lt_infinite_iff (digits : Nat) (exponent : Int) :
    nearestTo digits exponent < infinite ↔ (digits : ℚ) * 10 ^ exponent < finiteLimit := by
  have hpos : (0 : ℚ) < tenTo (-exponent).toNat := by exact_mod_cast tenTo_pos _
  rw [nearestTo, quotientOf_eq, nearestMagnitude_lt_infinite_iff (tenTo_pos _), ten_zpow_eq,
    mul_div_assoc', div_lt_iff₀ hpos, mul_comm (finiteLimit : ℚ)]
  exact_mod_cast Iff.rfl

/-- **A decimal number goes to a finite double if and only if it is less than the limit.** -/
theorem magnitudeOf_lt_infinite_iff (digits : Nat) (exponent : Int) :
    magnitudeOf digits exponent < infinite ↔ (digits : ℚ) * 10 ^ exponent < finiteLimit := by
  rcases Nat.eq_zero_or_pos digits with rfl | hd
  · have hlimit : (0 : ℚ) < finiteLimit := by
      exact_mod_cast (Nat.zero_le _).trans_lt finiteLimit_bounds.1
    rw [magnitudeOf, if_pos rfl, Nat.cast_zero, zero_mul]
    exact iff_of_true (by decide) hlimit
  · rw [← nearestTo_lt_infinite_iff]
    constructor <;> intro h
    · rwa [← magnitudeOf_eq_nearestTo hd (.inl h)]
    · rwa [magnitudeOf_eq_nearestTo hd (.inr h)]

end SavedFilter.Binary64
