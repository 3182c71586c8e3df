import SavedFilter.Json.Number
import SavedFilter.Proofs.Binary64.Nearest

/-!
# Shortest digits read back

The digits that are written for a finite double are those of a number that reads back as it:

* `magnitudeOf_shortest`          what `shortest` finds reads back, also where it takes all digits;
* `length_significant_shortest`   it has no more digits than a reader looks at.
-/

namespace SavedFilter
namespace Binary64
open Text

theorem ofMagnitude_magnitude (x : Binary64) : ofMagnitude x.isNegative x.magnitude = x := by
  have hweight : signWeight = 0x8000000000000000 := rfl
  have hlt : x.bits.toNat < 2 * signWeight := x.bits.toNat_lt
  have hbits : (if x.isNegative then signWeight + x.magnitude else x.magnitude) =
      x.bits.toNat := by
    unfold isNegative magnitude
    by_cases h : signWeight ≤ x.bits.toNat
    · rw [if_pos (decide_eq_true h), Nat.mod_eq_sub_mod h, Nat.mod_eq_of_lt (by omega)]
      omega
    · rw [if_neg (by rwa [decide_eq_true_iff]), Nat.mod_eq_of_lt (by omega)]
  rw [ofMagnitude, hbits, UInt64.ofNat_toNat]

/-! ## all digits -/

theorem units_pos {b : Nat} (h0 : 0 < b) : 0 < units b := by
  apply Nat.pos_of_ne_zero
  intro hz
  have := nearestMagnitude_units h0
  rw [hz, nearestMagnitude_eq_zero (by rw [Nat.zero_mul]; exact unitsInOne_pos)] at this
  omega

/-- the digits are kept behind a variable: no power of this size is to be computed in a proof -/
theorem exact_eq (b : Nat) : ∃ k five, k = 1074 ∧ five = Nat.pow 5 k ∧
    five * unitsInOne = tenTo k ∧ exact b = ⟨units b * five, -1074⟩ := by
  obtain ⟨k, hk⟩ : ∃ k, k = 1074 := ⟨_, rfl⟩
  have hpowers : GreatPowers k := hk ▸ greatPowers
  refine ⟨k, Nat.pow 5 k, hk, rfl, hpowers.units_fives, ?_⟩
  rw [exact, ← hk]

theorem magnitudeOf_exact {b : Nat} (h0 : 0 < b) (h : b < infinite) :
    magnitudeOf (exact b).digits (exact b).exponent = b := by
  obtain ⟨k, five, hk, -, hten, he⟩ := exact_eq b
  have hfive : 0 < five := by
    apply Nat.pos_of_ne_zero
    intro hz
    rw [hz, Nat.zero_mul] at hten
    exact (tenTo_pos k).ne hten
  have hn : nearestTo (units b * five) (-1074) = b := by
    rw [nearestTo, quotientOf_eq, show (-(-1074 : Int)).toNat = k from hk.symm,
      show (-1074 : Int).toNat = 0 from rfl, tenTo_zero, Nat.mul_one, ← hten, Nat.mul_comm five,
      nearestMagnitude_mul_right _ _ hfive, nearestMagnitude_units h0]
  rw [he]
  rw [magnitudeOf_eq_nearestTo (Nat.mul_pos (units_pos h0) hfive) (.inr (hn.symm ▸ h)), hn]

theorem firstFrom_induction {f : Nat → Option Decimals} {other : Decimals} {P : Decimals → Prop}
    (h : ∀ n, 1 ≤ n → n ≤ 17 → ∀ d, f n = some d → P d) (h0 : P other) (k n : Nat) (hn : 1 ≤ n)
    (hk : n + k ≤ 18) : P (firstFrom f other n k) := by
  induction k generalizing n with
  | zero => exact h0
  | succ k ih =>
    rw [firstFrom]
    cases hf : f n with
    | none => exact ih (n + 1) (by omega) (by omega)
    | some d => exact h n hn (by omega) d hf

/-- what holds of all digits, and of what reads back on a grid of up to 17 digits, holds of the
shortest digits -/
theorem shortest_induction {b : Nat} {P : Decimals → Prop} (h0 : 0 < b) (hexact : P (exact b))
    (h : ∀ n, 1 ≤ n → n ≤ 17 → ∀ d, withDigits? b n = some d → P d) : P (shortest b) := by
  rw [shortest, if_neg h0.ne']
  exact firstFrom_induction h hexact 17 1 le_rfl le_rfl

/-- **What is written for a finite double reads back as it.** -/
theorem magnitudeOf_shortest {b : Nat} (h0 : 0 < b) (h : b < infinite) :
    magnitudeOf (shortest b).digits (shortest b).exponent = b := by
  apply shortest_induction (P := fun d => magnitudeOf d.digits d.exponent = b) h0
    (magnitudeOf_exact h0 h)
  intro n _ _ d hd
  exact beq_iff_eq.mp (readsBack_of_withDigits? hd)

theorem shortest_digits_pos {b : Nat} (h0 : 0 < b) (h : b < infinite) :
    0 < (shortest b).digits := by
  apply Nat.pos_of_ne_zero
  intro hz
  have := magnitudeOf_shortest h0 h
  rw [hz, magnitudeOf, if_pos rfl] at this
  omega

end Binary64

namespace Json
open Text Binary64

/-! ## counting digits -/

theorem significant_append_zeros (ds : List Char) (n : Nat) :
    significant (ds ++ List.replicate n '0') = significant ds := by
  rw [significant, List.reverse_append, List.reverse_replicate,
    List.dropWhile_append_of_pos (fun c hc => by rw [List.eq_of_mem_replicate hc]; rfl)]
  rfl

theorem length_significant_le (ds : List Char) : (significant ds).length ≤ ds.length := by
  rw [significant, List.length_reverse]
  exact le_trans (List.length_dropWhile_le _ _) (List.length_reverse ..).le

theorem length_significant_mul_tenTo {n k j : Nat} (hk : 0 < k) (h0 : 0 < n) (h : n < tenTo k) :
    (significant (decimal (n * tenTo j))).length ≤ k := by
  rw [decimal_mul_tenTo h0, significant_append_zeros]
  exact le_trans (length_significant_le _) ((length_decimal_le_iff hk).mpr h)

/-- Of all digits of a double at most 768 are not zeros at the end: `m * 2 ^ s` units are
`m * 5 ^ (1074 - s)` with zeros, or for great `s` the whole number `m * 2 ^ (s - 1074)`. -/
theorem length_significant_exact {b : Nat} (h0 : 0 < b) (h : b < infinite) :
    (significant (decimal (exact b).digits)).length ≤ 768 := by
  obtain ⟨k, five, hk, hfive, -, he⟩ := exact_eq b
  obtain ⟨m, s, hm, hs, hunits⟩ := exists_units_eq h
  have hm0 : 0 < m := Nat.pos_of_mul_pos_right (hunits ▸ units_pos h0)
  have hpowers : GreatPowers k := hk ▸ greatPowers
  have hfive : five = 5 ^ k := hfive
  rw [he, hunits]
  show (significant (decimal (m * 2 ^ s * five))).length ≤ 768
  rw [hfive]
  rcases Nat.le_total s k with hsk | hsk
  · have hsplit : m * 2 ^ s * 5 ^ k = m * 5 ^ (k - s) * tenTo s := by
      rw [tenTo_eq, show 10 ^ s = 2 ^ s * 5 ^ s from Nat.mul_pow 2 5 s,
        show 5 ^ k = 5 ^ (k - s) * 5 ^ s by rw [← Nat.pow_add, Nat.sub_add_cancel hsk]]
      ring
    rw [hsplit]
    apply length_significant_mul_tenTo (by omega) (Nat.mul_pos hm0 (Nat.pow_pos (by omega)))
    calc m * 5 ^ (k - s) ≤ m * 5 ^ k :=
          Nat.mul_le_mul_left _ (Nat.pow_le_pow_right (by omega) (Nat.sub_le k s))
      _ < 2 * exponentWeight * 5 ^ k := Nat.mul_lt_mul_of_pos_right hm (Nat.pow_pos (by omega))
      _ ≤ tenTo 768 := hpowers.fraction_digits
  · have hsplit : m * 2 ^ s * 5 ^ k = m * 2 ^ (s - k) * tenTo k := by
      rw [tenTo_eq, show 10 ^ k = 2 ^ k * 5 ^ k from Nat.mul_pow 2 5 k,
        show 2 ^ s = 2 ^ (s - k) * 2 ^ k by rw [← Nat.pow_add, Nat.sub_add_cancel hsk]]
      ring
    rw [hsplit]
    apply length_significant_mul_tenTo (by omega) (Nat.mul_pos hm0 (Nat.two_pow_pos _))
    calc m * 2 ^ (s - k) ≤ m * 2 ^ (2045 - k) :=
          Nat.mul_le_mul_left _ (Nat.pow_le_pow_right (by omega) (by omega))
      _ < 2 * exponentWeight * 2 ^ (2045 - k) := Nat.mul_lt_mul_of_pos_right hm (Nat.two_pow_pos _)
      _ ≤ tenTo 768 := hpowers.whole_digits

theorem le_leadingExponent (num : Nat) : -324 ≤ leadingExponent num unitsInOne := by
  have hsmall : unitsInOne ≤ tenTo 324 := greatPowers.units_le
  unfold leadingExponent
  generalize unitsInOne = one at hsmall
  split
  · omega
  · have hlt : (one - 1) / num < tenTo 324 := by
      apply lt_of_le_of_lt (Nat.div_le_self _ _)
      have := tenTo_pos 324
      omega
    have := (length_decimal_le_iff (show 0 < 324 by omega)).mpr hlt
    omega

/-- a number of up to 17 digits beside a double lies on a grid that is not too fine -/
theorem exists_grid_of_mem_around {b n : Nat} {d : Decimals} (hn : n ≤ 17) (h : d ∈ around b n) :
    ∃ e, -340 ≤ e ∧ d.digits ≤ (onGrid b e).1 / (onGrid b e).2 + 1 := by
  have hlead := le_leadingExponent (units b)
  refine ⟨leadingExponent (units b) unitsInOne - n + 1, by omega, ?_⟩
  simp only [around, List.mem_cons, List.not_mem_nil, or_false] at h
  rcases h with rfl | rfl
  · exact roundToEven_le _ _
  · dsimp only
    split <;> omega

/-- on such a grid a finite double has fewer than 768 digits -/
theorem onGrid_lt {b : Nat} {e : Int} (h : b < infinite) (he : -340 ≤ e) :
    (onGrid b e).1 / (onGrid b e).2 + 1 < tenTo 768 := by
  have hunits : units b < unitsInOne * tenTo 309 := by
    obtain ⟨m, s, hm, hs, hu⟩ := exists_units_eq h
    have hbound : 2 * exponentWeight * 2 ^ 2045 ≤ unitsInOne * tenTo 309 := greatPowers.greatest
    generalize 2045 = k at hs hbound
    rw [hu]
    calc m * 2 ^ s ≤ m * 2 ^ k := Nat.mul_le_mul_left _ (Nat.pow_le_pow_right (by omega) hs)
      _ < 2 * exponentWeight * 2 ^ k := Nat.mul_lt_mul_of_pos_right hm (Nat.two_pow_pos _)
      _ ≤ unitsInOne * tenTo 309 := hbound
  have hone := unitsInOne_pos
  have hdiv : (onGrid b e).1 / (onGrid b e).2 < tenTo 309 * tenTo 340 := by
    cases e with
    | ofNat e =>
      show units b / (unitsInOne * tenTo e) < _
      refine Nat.div_lt_of_lt_mul (lt_of_lt_of_le hunits ?_)
      rw [Nat.mul_assoc]
      apply Nat.mul_le_mul_left _
      rw [Nat.mul_left_comm]
      exact Nat.le_mul_of_pos_right _ (Nat.mul_pos (tenTo_pos e) (tenTo_pos 340))
    | negSucc e =>
      show units b * tenTo (e + 1) / unitsInOne < _
      have hle : tenTo (e + 1) ≤ tenTo 340 := tenTo_le_tenTo (by omega)
      apply Nat.div_lt_of_lt_mul
      rw [← Nat.mul_assoc]
      exact Nat.mul_lt_mul_of_lt_of_le hunits hle (tenTo_pos _)
  have hten : tenTo 309 * tenTo 340 + 1 ≤ tenTo 768 := greatPowers.grid_digits
  omega

/-- **What is written for a finite double has no more digits than a reader looks at.** -/
theorem length_significant_shortest {b : Nat} (h0 : 0 < b) (h : b < infinite) :
    (significant (decimal (shortest b).digits)).length ≤ 768 := by
  refine shortest_induction (P := fun d => (significant (decimal d.digits)).length ≤ 768) h0
    (length_significant_exact h0 h) fun n _ hn d hd => ?_
  obtain ⟨e, he, hle⟩ := exists_grid_of_mem_around hn (List.mem_of_find?_eq_some hd)
  refine le_trans (length_significant_le _) ((length_decimal_le_iff (by omega)).mpr ?_)
  exact lt_of_le_of_lt hle (onGrid_lt h he)

end Json
end SavedFilter
