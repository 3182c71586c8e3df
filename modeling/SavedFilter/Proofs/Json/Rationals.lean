import Mathlib.Algebra.Order.Field.Basic
import Mathlib.Tactic.Linarith
import SavedFilter.Proofs.Binary64.Overflow
import SavedFilter.Proofs.Json.Doubles

/-!
# The number of a text

The text of a number spells a rational number (`Numeral.toRat`), whatever is made of it.

* `isSome_double?_iff`     it has a nearest finite double if and only if it is not beyond the limit
                           of the doubles, also where only the first digits are looked at;
* `int?_eq_some_iff`       it is read as an integer if and only if it is written as one that 64 bits
                           hold, and then as exactly that one;
* `isSome_value?_iff`      so it is read at all if and only if it is not too great.
-/

namespace SavedFilter.Json
open Text Binary64

namespace Numeral

/-- the number without its sign: all its digits, and the power of ten of the last of them -/
def magnitude (n : Numeral) : ℚ :=
  ofDecimal (n.whole ++ n.fractionDigits) * 10 ^ (n.power - n.fractionDigits.length)

/-- the number that is spelled -/
def toRat (n : Numeral) : ℚ := if n.negative then -n.magnitude else n.magnitude

/-- written as an integer: no fraction, no exponent, and not the zero with a minus sign -/
structure IsInteger (n : Numeral) : Prop where
  fraction : n.fraction = none
  exponent : n.exponent = none
  not_negative_zero : ¬ (n.negative = true ∧ n.whole = ['0'])

end Numeral

/-! ## values of digits -/

theorem ofDecimal_dropWhile_zeros (ds : List Char) :
    ofDecimal (ds.dropWhile (· == '0')) = ofDecimal ds := by
  induction ds with
  | nil => rfl
  | cons c ds ih =>
    rw [List.dropWhile_cons]
    split
    · next h =>
      obtain rfl := beq_iff_eq.mp h
      rw [ih, ofDecimal_cons]
      show _ = 0 * _ + _
      rw [Nat.zero_mul, Nat.zero_add]
    · rfl

/-- digits that do not begin with a zero -/
theorem tenTo_le_ofDecimal {ds : List Char} (hne : ds ≠ []) (hd : ∀ c ∈ ds, c.isDigit = true)
    (hhead : ds.head? ≠ some '0') : tenTo (ds.length - 1) ≤ ofDecimal ds := by
  obtain ⟨c, cs, rfl⟩ := List.exists_cons_of_ne_nil hne
  have h0 : c.toNat ≠ 48 := fun h => hhead (congrArg some (Char.toNat_inj.mp h))
  have hge : 48 ≤ c.toNat := (Char.isDigit_iff_toNat.mp (hd c (List.mem_cons_self ..))).1
  have hone : 1 * tenTo cs.length ≤ (c.toNat - 48) * tenTo cs.length :=
    Nat.mul_le_mul_right _ (by omega)
  rw [ofDecimal_cons, List.length_cons, Nat.add_sub_cancel]
  omega

namespace Numeral
variable {n : Numeral}

theorem magnitude_nonneg (n : Numeral) : 0 ≤ n.magnitude := by
  unfold magnitude
  positivity

theorem abs_toRat (n : Numeral) : |n.toRat| = n.magnitude := by
  unfold toRat
  split
  · rw [abs_neg, abs_of_nonneg n.magnitude_nonneg]
  · exact abs_of_nonneg n.magnitude_nonneg

/-- the zeros that do not count change nothing -/
theorem coefficient_mul_scale (n : Numeral) :
    (ofDecimal n.coefficient : ℚ) * 10 ^ n.scale = n.magnitude := by
  have hsplit := significant_append n.fractionDigits
  have hlength := congrArg List.length hsplit
  rw [List.length_append, List.length_replicate] at hlength
  generalize n.fractionDigits.length - (significant n.fractionDigits).length = zeros
    at hsplit hlength
  have hscale : n.scale = n.power - n.fractionDigits.length + zeros := by
    rw [scale]
    omega
  rw [magnitude, coefficient, ofDecimal_dropWhile_zeros, hscale, zpow_add₀ (by norm_num),
    zpow_natCast, mul_comm ((10 : ℚ) ^ _), ← mul_assoc]
  congr 1
  conv_rhs => rw [← hsplit, ← List.append_assoc, ofDecimal_append_zeros, tenTo_eq]
  push_cast
  rfl

end Numeral

/-! ## numbers that are not too great -/

theorem isSome_ofScientific?_iff (negative : Bool) (digits : Nat) (exponent : Int) :
    (ofScientific? negative digits exponent).isSome ↔
      (digits : ℚ) * 10 ^ exponent < finiteLimit := by
  rw [← magnitudeOf_lt_infinite_iff, ofScientific?]
  split
  · next h => exact iff_of_true rfl h
  · next h => exact iff_of_false (by simp) h

/-- from 768 digits on no part of the last one decides whether a number is too great: the limit is a
whole number of the same power of ten, or it is far below -/
theorem add_mul_lt_finiteLimit_iff {t : Nat} {part : ℚ} {e : Int} (ht : tenTo 767 ≤ t)
    (h0 : 0 ≤ part) (h1 : part < 1) :
    (t + part) * 10 ^ e < finiteLimit ↔ (t : ℚ) * 10 ^ e < finiteLimit := by
  rcases Int.le_total 0 e with he | he
  · have hgreat : (finiteLimit : ℚ) ≤ t := by
      exact_mod_cast le_trans finiteLimit_bounds.2 ht
    have hpower : (1 : ℚ) ≤ 10 ^ e := one_le_zpow₀ (by norm_num) he
    have hall : (finiteLimit : ℚ) ≤ t * 10 ^ e :=
      le_trans hgreat (le_mul_of_one_le_right (Nat.cast_nonneg t) hpower)
    have hmore : (t : ℚ) * 10 ^ e ≤ (t + part) * 10 ^ e := by gcongr; linarith
    exact iff_of_false (hall.trans hmore).not_gt hall.not_gt
  · obtain ⟨k, hk⟩ := Int.exists_eq_neg_ofNat he
    obtain rfl : e = -(k : Int) := hk
    have hpos : (0 : ℚ) < 10 ^ k := by positivity
    rw [zpow_neg, zpow_natCast, ← div_eq_mul_inv, ← div_eq_mul_inv, div_lt_iff₀ hpos,
      div_lt_iff₀ hpos]
    constructor
    · intro h
      linarith
    · intro h
      have hnext : (t : ℚ) + 1 ≤ finiteLimit * 10 ^ k := by
        have : t < finiteLimit * 10 ^ k := by exact_mod_cast h
        exact_mod_cast this
      linarith

/-- what stands behind the first 768 digits does not decide whether a number is too great -/
theorem append_mul_lt_finiteLimit_iff {front behind : List Char}
    (hfront : tenTo 767 ≤ ofDecimal front) (hbehind : ∀ c ∈ behind, c.isDigit = true) (e : Int) :
    (ofDecimal (front ++ behind) : ℚ) * 10 ^ e < finiteLimit ↔
      (ofDecimal front : ℚ) * 10 ^ (e + behind.length) < finiteLimit := by
  have hsplit : (ofDecimal (front ++ behind) : ℚ) * 10 ^ e =
      (ofDecimal front + ofDecimal behind / 10 ^ behind.length) * 10 ^ (e + behind.length) := by
    rw [ofDecimal_append, tenTo_eq, zpow_add₀ (by norm_num), zpow_natCast]
    push_cast
    field_simp
  have hpart : (ofDecimal behind : ℚ) / 10 ^ behind.length < 1 := by
    rw [div_lt_one (by positivity)]
    exact_mod_cast ofDecimal_lt hbehind
  rw [hsplit, add_mul_lt_finiteLimit_iff hfront (by positivity) hpart]

namespace Numeral
variable {n : Numeral}

theorem isDigit_of_mem_coefficient (hn : n.IsWritten) {c : Char} (hc : c ∈ n.coefficient) :
    c.isDigit = true := by
  have hmem := (List.dropWhile_sublist _).subset hc
  rcases List.mem_append.mp hmem with hw | hf
  · exact hn.whole_digits c hw
  · have hf : c ∈ n.fractionDigits := by
      rw [← significant_append n.fractionDigits]
      exact List.mem_append_left _ hf
    cases hd : n.fraction with
    | none => simp [fractionDigits, hd] at hf
    | some ds =>
      rw [fractionDigits, hd] at hf
      exact hn.fraction_digits ds hd c hf

theorem tenTo_le_ofDecimal_take (hn : n.IsWritten) (hlong : maxDigits < n.coefficient.length) :
    tenTo 767 ≤ ofDecimal (n.coefficient.take maxDigits) := by
  have hlength : (n.coefficient.take maxDigits).length = maxDigits := by
    rw [List.length_take, Nat.min_eq_left hlong.le]
  have hle : tenTo ((n.coefficient.take maxDigits).length - 1) ≤
      ofDecimal (n.coefficient.take maxDigits) := by
    apply tenTo_le_ofDecimal
    case hne =>
      apply List.ne_nil_of_length_pos
      rw [hlength]
      exact Nat.zero_lt_succ 767
    case hd => exact fun c hc => isDigit_of_mem_coefficient hn (List.mem_of_mem_take hc)
    case hhead =>
      have hne : maxDigits ≠ 0 := Nat.succ_ne_zero 767
      rw [List.head?_take, if_neg hne]
      exact head?_dropWhile_zeros_ne _
  rwa [hlength] at hle

/-- **A number has a nearest finite double if and only if it is not too great.** -/
theorem isSome_double?_iff (hn : n.IsWritten) :
    n.double?.isSome ↔ n.magnitude < finiteLimit := by
  rw [← coefficient_mul_scale, double?]
  split
  · exact isSome_ofScientific?_iff _ _ _
  · next hlong =>
    rw [Nat.not_le] at hlong
    have hgreat := tenTo_le_ofDecimal_take hn hlong
    have hbehind : ∀ c ∈ n.coefficient.drop maxDigits, c.isDigit = true :=
      fun c hc => isDigit_of_mem_coefficient hn (List.mem_of_mem_drop hc)
    have hlength : (n.coefficient.drop maxDigits).length = n.coefficient.length - maxDigits :=
      List.length_drop
    have hscale : n.scale + ((n.coefficient.length - maxDigits - 1 : Nat) : Int) +
        (['1'].length : Nat) = n.scale + (n.coefficient.length - maxDigits : Nat) := by
      rw [List.length_singleton]
      omega
    conv_rhs => rw [← List.take_append_drop maxDigits n.coefficient,
      append_mul_lt_finiteLimit_iff hgreat hbehind, hlength]
    rw [isSome_ofScientific?_iff,
      append_mul_lt_finiteLimit_iff hgreat (List.forall_mem_singleton.mpr rfl), hscale]

/-! ## integers -/

theorem isPlain_iff : n.isPlain = true ↔ n.fraction = none ∧ n.exponent = none := by
  rw [isPlain, Bool.and_eq_true, Option.isNone_iff_eq_none, Option.isNone_iff_eq_none]

/-- among the whole parts of a number only the single zero is zero -/
theorem ofDecimal_whole_eq_zero_iff (hn : n.IsWritten) :
    ofDecimal n.whole = 0 ↔ n.whole = ['0'] := by
  constructor
  · intro hzero
    by_contra hne
    have hle := tenTo_le_ofDecimal hn.whole_ne hn.whole_digits fun h => hne (hn.whole_zero h)
    rw [hzero] at hle
    exact absurd hle (tenTo_pos _).not_ge
  · intro h
    rw [h]
    rfl

theorem toRat_of_plain (hplain : n.isPlain = true) :
    n.toRat = (if n.negative then -(ofDecimal n.whole : Int) else ofDecimal n.whole : Int) := by
  obtain ⟨hf, he⟩ := isPlain_iff.mp hplain
  have hmagnitude : n.magnitude = ofDecimal n.whole := by
    simp [magnitude, fractionDigits, power, hf, he]
  rw [toRat, hmagnitude]
  split <;> push_cast <;> rfl

/-- **A number is read as an integer if and only if it is written as one that 64 bits hold**, and
then it is that integer. -/
theorem int?_eq_some_iff (hn : n.IsWritten) {i : Int} :
    n.int? = some i ↔ n.IsInteger ∧ (i : ℚ) = n.toRat ∧ FitsInteger i := by
  cases hplain : n.isPlain with
  | false =>
    have hint : n.int? = none := by
      rw [int?, hplain]
      rfl
    have hinteger : ¬ n.IsInteger := by
      intro h
      rw [isPlain_iff.mpr ⟨h.fraction, h.exponent⟩] at hplain
      cases hplain
    exact iff_of_false (by simp [hint]) (fun h => hinteger h.1)
  | true =>
    have hinteger : n.IsInteger ↔ ¬ (n.negative = true ∧ ofDecimal n.whole = 0) := by
      rw [ofDecimal_whole_eq_zero_iff hn]
      obtain ⟨hf, he⟩ := isPlain_iff.mp hplain
      exact ⟨fun h => h.not_negative_zero, fun h => ⟨hf, he, h⟩⟩
    have hsize : UInt64.size = 0x10000000000000000 := rfl
    rw [hinteger, toRat_of_plain hplain, Int.cast_inj, int?, hplain, FitsInteger]
    generalize ofDecimal n.whole = m
    cases n.negative with
    | true =>
      simp only [Bool.not_true, Bool.false_eq_true, if_false, if_true,
        Option.ite_none_right_eq_some, Option.some.injEq, true_and]
      omega
    | false =>
      simp only [Bool.not_true, Bool.false_eq_true, if_false, Option.ite_none_right_eq_some,
        Option.some.injEq, false_and, not_false_eq_true, true_and, hsize]
      omega

/-- **A number is read if and only if it is not too great**, as an integer or as a double. -/
theorem isSome_value?_iff (hn : n.IsWritten) : n.value?.isSome ↔ n.magnitude < finiteLimit := by
  rw [value?]
  cases hi : n.int? with
  | none => rw [Option.isSome_map, isSome_double?_iff hn]
  | some i =>
    obtain ⟨-, hrat, hlow, hhigh⟩ := (int?_eq_some_iff hn).mp hi
    have hlimit := finiteLimit_bounds.1
    have habs : |i| < finiteLimit := by
      rw [abs_lt]
      omega
    refine iff_of_true rfl ?_
    rw [← abs_toRat, ← hrat]
    exact_mod_cast habs

end Numeral
end SavedFilter.Json
