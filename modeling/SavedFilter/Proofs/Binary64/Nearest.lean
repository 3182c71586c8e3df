import Mathlib.Data.Nat.Log
import SavedFilter.Binary64.Shortest
import SavedFilter.Proofs.Text.Digits

/-!
# The nearest double of a decimal number

Which double is nearest depends on the number alone and not on how it is written as a quotient, nor
on where its zeros stand:

* `nearestMagnitude_congr`      equal quotients have the same nearest magnitude;
* `nearestMagnitude_units`      a double is nearest to itself;
* `magnitudeOf_eq_nearestTo`    the powers of ten that are cut off early change nothing for a finite
                                result;
* `nearestTo_mul_tenTo`         zeros may go from the digits to the exponent.
-/

namespace SavedFilter.Binary64
open Text

/-- What is computed with powers of the size of the greatest and the smallest doubles.  No other
proof computes with them: there the exponents stand behind variables. -/
structure GreatPowers (k : Nat) : Prop where
  units : unitsInOne = 2 ^ k
  units_fives : Nat.pow 5 k * unitsInOne = tenTo k
  units_le : unitsInOne ≤ tenTo 324
  overflow : 2 ^ 2098 ≤ tenTo overflowExponent * unitsInOne
  greatest : 2 * exponentWeight * 2 ^ 2045 ≤ unitsInOne * tenTo 309
  whole_digits : 2 * exponentWeight * 2 ^ (2045 - k) ≤ tenTo 768
  fraction_digits : 2 * exponentWeight * 5 ^ k ≤ tenTo 768
  grid_digits : tenTo 309 * tenTo 340 + 1 ≤ tenTo 768

theorem greatPowers : GreatPowers 1074 := by constructor <;> decide +kernel

theorem unitsInOne_eq : ∃ k, k = 1074 ∧ unitsInOne = 2 ^ k := ⟨1074, rfl, greatPowers.units⟩

theorem unitsInOne_pos : 0 < unitsInOne := by
  obtain ⟨k, -, hunits⟩ := unitsInOne_eq
  rw [hunits]
  exact Nat.two_pow_pos k

theorem shiftLeft_mul (a c s : Nat) : (a * c) <<< s = a <<< s * c := by
  rw [Nat.shiftLeft_eq, Nat.shiftLeft_eq, Nat.mul_right_comm]

/-! ## quotients -/

theorem roundToEven_mul_right (num den : Nat) {c : Nat} (hc : 0 < c) :
    roundToEven (num * c) (den * c) = roundToEven num den := by
  have h1 : 2 * (num % den * c) < den * c ↔ 2 * (num % den) < den := by
    rw [← Nat.mul_assoc]
    exact Nat.mul_lt_mul_right hc
  have h2 : den * c < 2 * (num % den * c) ↔ den < 2 * (num % den) := by
    rw [← Nat.mul_assoc]
    exact Nat.mul_lt_mul_right hc
  simp only [roundToEven, Nat.mul_div_mul_right _ _ hc, Nat.mul_mod_mul_right, h1, h2]

theorem nearestMagnitude_mul_right (num den : Nat) {c : Nat} (hc : 0 < c) :
    nearestMagnitude (num * c) (den * c) = nearestMagnitude num den := by
  simp only [nearestMagnitude, Nat.mul_right_comm num c unitsInOne, Nat.mul_div_mul_right _ _ hc,
    shiftLeft_mul, roundToEven_mul_right _ _ hc]

theorem nearestMagnitude_congr {num den num' den' : Nat} (hd : 0 < den) (hd' : 0 < den')
    (h : num * den' = num' * den) : nearestMagnitude num den = nearestMagnitude num' den' := by
  rw [← nearestMagnitude_mul_right num den hd', h, Nat.mul_comm den den',
    nearestMagnitude_mul_right num' den' hd]

theorem div_le_roundToEven (num den : Nat) : num / den ≤ roundToEven num den := by
  simp only [roundToEven]
  split
  · exact le_rfl
  · split <;> omega

theorem roundToEven_le (num den : Nat) : roundToEven num den ≤ num / den + 1 := by
  have := Nat.mod_lt (num / den) (show 0 < 2 by omega)
  simp only [roundToEven]
  split
  · omega
  · split <;> omega

/-! ## a double is nearest to itself -/

theorem units_of_lt {b : Nat} (h : b < exponentWeight) : step b = 0 ∧ units b = b := by
  have hs : step b = 0 := by rw [step, Nat.div_eq_of_lt h]
  exact ⟨hs, by rw [units, hs, Nat.zero_mul, Nat.sub_zero, Nat.shiftLeft_zero]⟩

/-- the binary digits of a double of normal size, 53 of them -/
theorem units_of_le {b : Nat} (h : exponentWeight ≤ b) :
    ∃ m, exponentWeight ≤ m ∧ m < 2 * exponentWeight ∧ units b = m * 2 ^ step b ∧
      m + step b * exponentWeight = b := by
  have hw : exponentWeight = 0x10000000000000 := rfl
  refine ⟨b - step b * exponentWeight, ?_, ?_, Nat.shiftLeft_eq _ _, ?_⟩ <;>
    · simp only [step, hw] at h ⊢
      omega

/-- the units of a finite double are up to 53 binary digits and up to 2045 zeros -/
theorem exists_units_eq {b : Nat} (h : b < infinite) :
    ∃ m s, m < 2 * exponentWeight ∧ s ≤ 2045 ∧ units b = m * 2 ^ s := by
  have hw : exponentWeight = 0x10000000000000 := rfl
  have hi : infinite = 0x7FF0000000000000 := rfl
  rcases Nat.lt_or_ge b exponentWeight with hb | hb
  · refine ⟨b, 0, by omega, by omega, ?_⟩
    rw [(units_of_lt hb).2, Nat.pow_zero, Nat.mul_one]
  · obtain ⟨m, -, hm, hunits, -⟩ := units_of_le hb
    refine ⟨m, step b, hm, ?_, hunits⟩
    rw [step, hw]
    omega

theorem log2_mul_two_pow {m k s : Nat} (h : 2 ^ k ≤ m) (h' : m < 2 ^ (k + 1)) :
    Nat.log2 (m * 2 ^ s) = k + s := by
  have hm : m ≠ 0 := by
    rintro rfl
    exact absurd h (by simp)
  have hne : m * 2 ^ s ≠ 0 := Nat.mul_ne_zero hm (Nat.pow_pos (by omega)).ne'
  rw [Nat.log2_eq_iff hne]
  constructor
  · rw [Nat.pow_add]
    exact Nat.mul_le_mul_right _ h
  · rw [Nat.add_right_comm, Nat.pow_add]
    exact Nat.mul_lt_mul_of_pos_right h' (Nat.pow_pos (by omega))

theorem exponentWeight_eq : exponentWeight = 2 ^ 52 := by decide

theorem nearestMagnitude_units {b : Nat} (h : 0 < b) :
    nearestMagnitude (units b) unitsInOne = b := by
  have hu := unitsInOne_pos
  simp only [nearestMagnitude, Nat.mul_div_cancel _ hu]
  rcases Nat.lt_or_ge b exponentWeight with hb | hb
  · obtain ⟨-, hunits⟩ := units_of_lt hb
    have hlog : Nat.log2 b - 52 = 0 := by
      have := (Nat.log2_lt h.ne').mpr (exponentWeight_eq ▸ hb)
      omega
    rw [hunits, hlog, Nat.shiftLeft_zero, roundToEven_mul _ _ hu, Nat.zero_mul, Nat.add_zero]
  · obtain ⟨m, hm, hm', hunits, hsum⟩ := units_of_le hb
    have hlog : Nat.log2 (units b) - 52 = step b := by
      rw [hunits, log2_mul_two_pow (exponentWeight_eq ▸ hm)
        (by rw [Nat.pow_succ, Nat.mul_comm]; exact exponentWeight_eq ▸ hm')]
      omega
    have hden : unitsInOne <<< step b = 2 ^ step b * unitsInOne := by
      rw [Nat.shiftLeft_eq, Nat.mul_comm]
    have hpos : 0 < 2 ^ step b * unitsInOne := Nat.mul_pos (Nat.pow_pos (by omega)) hu
    rw [hlog, hunits, hden, Nat.mul_assoc, roundToEven_mul _ _ hpos, hsum]

/-! ## powers of ten -/

/-- the magnitude nearest to `digits * 10 ^ exponent`, computed for any exponent -/
def nearestTo (digits : Nat) (exponent : Int) : Nat :=
  nearestMagnitude (quotientOf digits exponent).1 (quotientOf digits exponent).2

theorem quotientOf_eq (digits : Nat) (exponent : Int) :
    quotientOf digits exponent = (digits * tenTo exponent.toNat, tenTo (-exponent).toNat) := by
  cases exponent with
  | ofNat e =>
    have : (-(Int.ofNat e)).toNat = 0 := by simp
    rw [this]
    rfl
  | negSucc e =>
    have h1 : (Int.negSucc e).toNat = 0 := rfl
    have h2 : (-(Int.negSucc e)).toNat = e + 1 := rfl
    rw [h1, h2, tenTo_zero, Nat.mul_one]
    rfl

/-- zeros may go from the digits to the exponent -/
theorem nearestTo_mul_tenTo (digits zeros : Nat) (exponent : Int) :
    nearestTo (digits * tenTo zeros) exponent = nearestTo digits (exponent + zeros) := by
  simp only [nearestTo, quotientOf_eq]
  apply nearestMagnitude_congr (tenTo_pos _) (tenTo_pos _)
  simp only [Nat.mul_assoc, ← tenTo_add]
  congr 2
  omega

/-- a number of at least `2 ^ 2098` units is beyond the greatest double -/
theorem infinite_le_nearestMagnitude {num den k : Nat} (hk : 2098 ≤ k)
    (h : 2 ^ k ≤ num * unitsInOne / den) : infinite ≤ nearestMagnitude num den := by
  simp only [nearestMagnitude]
  have hq := div_le_roundToEven (num * unitsInOne)
    (den <<< (Nat.log2 (num * unitsInOne / den) - 52))
  rw [Nat.shiftLeft_eq, ← Nat.div_div_eq_div_mul] at hq
  rw [Nat.shiftLeft_eq]
  generalize num * unitsInOne / den = x at h hq ⊢
  have hx : x ≠ 0 := (Nat.lt_of_lt_of_le (Nat.two_pow_pos _) h).ne'
  have hlog : 2098 ≤ Nat.log2 x := le_trans hk ((Nat.le_log2 hx).mpr h)
  have hfull : exponentWeight ≤ x / 2 ^ (Nat.log2 x - 52) := by
    rw [Nat.le_div_iff_mul_le (Nat.pow_pos (by omega)), exponentWeight_eq, ← Nat.pow_add,
      show 52 + (Nat.log2 x - 52) = Nat.log2 x by omega]
    exact Nat.log2_self_le hx
  have hw : exponentWeight = 0x10000000000000 := rfl
  have hi : infinite = 2047 * exponentWeight := rfl
  have hs : 2046 * exponentWeight ≤ (Nat.log2 x - 52) * exponentWeight :=
    Nat.mul_le_mul_right _ (by omega)
  omega

theorem infinite_le_nearestTo {digits : Nat} {exponent : Int} (hd : 0 < digits)
    (he : (overflowExponent : Int) ≤ exponent) : infinite ≤ nearestTo digits exponent := by
  have h1 : 2 ^ 2098 ≤ tenTo overflowExponent * unitsInOne := greatPowers.overflow
  generalize overflowExponent = limit at he h1
  have h2 : (-exponent).toNat = 0 := by omega
  have h3 : limit ≤ exponent.toNat := by omega
  rw [nearestTo, quotientOf_eq, h2, tenTo_zero]
  apply infinite_le_nearestMagnitude le_rfl
  rw [Nat.div_one]
  refine le_trans h1 (Nat.mul_le_mul_right _ ?_)
  exact le_trans (tenTo_le_tenTo h3) (Nat.le_mul_of_pos_left _ hd)

/-- a number of less than half a unit is nearest to zero -/
theorem nearestMagnitude_eq_zero {num den : Nat} (h : 2 * (num * unitsInOne) < den) :
    nearestMagnitude num den = 0 := by
  have hlt : num * unitsInOne < den := by omega
  have hlog : Nat.log2 0 - 52 = 0 := by decide
  simp only [nearestMagnitude, Nat.div_eq_of_lt hlt, hlog, Nat.shiftLeft_zero, Nat.zero_mul,
    Nat.add_zero, roundToEven, Nat.mod_eq_of_lt hlt, h, if_true]

theorem two_pow_three_mul_le (n : Nat) : 2 ^ (3 * n) ≤ tenTo n := by
  rw [Nat.pow_mul]
  exact Nat.pow_le_pow_left (by omega) n

theorem nearestTo_eq_zero {digits : Nat} {exponent : Int}
    (h : (digits.log2 + 1076 : Int) < 3 * -exponent) : nearestTo digits exponent = 0 := by
  have h1 : exponent.toNat = 0 := by omega
  have h2 : digits.log2 + 1076 < 3 * (-exponent).toNat := by omega
  obtain ⟨k, hk, hunits⟩ := unitsInOne_eq
  rw [nearestTo, quotientOf_eq, h1, tenTo_zero, Nat.mul_one]
  apply nearestMagnitude_eq_zero
  calc 2 * (digits * unitsInOne)
      < 2 * (2 ^ (digits.log2 + 1) * unitsInOne) :=
        Nat.mul_lt_mul_of_pos_left
          (Nat.mul_lt_mul_of_pos_right Nat.lt_log2_self unitsInOne_pos) (by decide)
    _ = 2 ^ (digits.log2 + 1076) := by
        rw [hunits, hk, ← Nat.pow_add, ← Nat.pow_succ']
    _ ≤ 2 ^ (3 * (-exponent).toNat) := Nat.pow_le_pow_right (by omega) h2.le
    _ ≤ tenTo (-exponent).toNat := two_pow_three_mul_le _

/-- where the result is finite, by either way, none of the powers of ten is cut off -/
theorem magnitudeOf_eq_nearestTo {digits : Nat} {exponent : Int} (hd : 0 < digits)
    (h : magnitudeOf digits exponent < infinite ∨ nearestTo digits exponent < infinite) :
    magnitudeOf digits exponent = nearestTo digits exponent := by
  unfold magnitudeOf at h ⊢
  rw [if_neg hd.ne'] at h ⊢
  by_cases ho : (overflowExponent : Int) ≤ exponent
  · rw [if_pos ho] at h
    rcases h with h | h
    · exact absurd h (Nat.lt_irrefl _)
    · exact absurd (infinite_le_nearestTo hd ho) (Nat.not_le_of_lt h)
  · rw [if_neg ho]
    by_cases hu : (digits.log2 + 1076 : Int) < 3 * -exponent
    · rw [if_pos (by exact_mod_cast hu), nearestTo_eq_zero hu]
    · rw [if_neg (by exact_mod_cast hu)]
      rfl

/-- a finite number keeps its double when zeros go from its exponent to its digits -/
theorem magnitudeOf_mul_tenTo {digits zeros : Nat} {exponent : Int} (hd : 0 < digits)
    (h : magnitudeOf digits (exponent + zeros) < infinite) :
    magnitudeOf (digits * tenTo zeros) exponent = magnitudeOf digits (exponent + zeros) := by
  have hn := magnitudeOf_eq_nearestTo hd (.inl h)
  rw [hn] at h ⊢
  rw [← nearestTo_mul_tenTo] at h ⊢
  exact magnitudeOf_eq_nearestTo (Nat.mul_pos hd (tenTo_pos _)) (.inr h)

theorem magnitudeOf_add {digits zeros : Nat} {exponent : Int} (hd : 0 < digits)
    (h : magnitudeOf (digits * tenTo zeros) exponent < infinite) :
    magnitudeOf digits (exponent + zeros) = magnitudeOf (digits * tenTo zeros) exponent := by
  have hn := magnitudeOf_eq_nearestTo (Nat.mul_pos hd (tenTo_pos _)) (.inl h)
  rw [hn] at h ⊢
  rw [nearestTo_mul_tenTo] at h ⊢
  exact magnitudeOf_eq_nearestTo hd (.inr h)

end SavedFilter.Binary64
