import SavedFilter.Proofs.Decimal.Exactness

/-!
# Decimal literals with a power of ten

A power of ten moves the point, and the digits that it moves too far are dropped.  Together with the
digits of the plain form that were cut off before, this is still less than one unit of the last
place (`near_of_shiftDown`, `near_of_shiftUp`).

What holds of every literal that is read:

* `abs_value_sub_lt`     the decimal is less than one unit of its last place away from the number
                         that the literal spells;
* `value_eq_iff`         they are equal if and only if that number is a decimal, where the number in
                         front of the `e` is one;
* `abs_spelled_lt`       a number that is too great is never read.
-/

namespace SavedFilter.Decimal
open Text

/-! ## less than one unit -/

theorem eq_of_abs_sub_lt_one {x : ℚ} {n : Nat} (hx : ∃ k : ℤ, x = k) (h : |x - n| < 1) :
    x = n := by
  obtain ⟨k, rfl⟩ := hx
  have hlt : |k - n| < 1 := by exact_mod_cast h
  exact_mod_cast sub_eq_zero.mp (Int.abs_lt_one_iff.mp hlt)

/-- the last place of a decimal is as small as it can be -/
theorem exists_of_fits {q : ℚ} (h : Fits q) : ∃ k : ℤ, q * 10 ^ maxScale = k := by
  obtain ⟨d, rfl⟩ := h
  obtain ⟨n, hn⟩ := Nat.exists_eq_add_of_le d.scale_le
  refine ⟨d.mantissa * 10 ^ n, ?_⟩
  rw [value, hn, pow_add]
  push_cast
  field_simp

/-- A coefficient and a scale are less than one unit of the last place away from `q`, and equal to
it if neither `q` nor the number in front of the power of ten ask for more digits than there are. -/
structure Near (front q : ℚ) (coefficient scale : Nat) : Prop where
  near : |q * 10 ^ scale - coefficient| < 1
  exact_of_fits : Fits front → Fits q → q * 10 ^ scale = coefficient

theorem near_of_exact {front q : ℚ} {coefficient scale : Nat}
    (h : q * 10 ^ scale = coefficient) : Near front q coefficient scale :=
  ⟨(approximates_of_eq h).near, fun _ _ => h⟩

/-- the point moves and no digit is dropped -/
theorem near_of_eq {front q : ℚ} {coefficient scale scale' : Nat}
    (h : Approximates front coefficient scale) (hq : q * 10 ^ scale' = front * 10 ^ scale) :
    Near front q coefficient scale' := by
  refine ⟨?_, fun hfront _ => ?_⟩
  · rw [hq]
    exact h.near
  · rw [hq]
    exact h.exact_of_fits hfront

/-! ## dropped digits -/

theorem dropDigits_zero (coefficient : Nat) : dropDigits 0 coefficient = coefficient := rfl

/-- the digits that are dropped are rounded, half up -/
theorem abs_sub_dropDigits_le (n coefficient : Nat) :
    |(coefficient : ℚ) / 10 ^ (n + 1) - dropDigits (n + 1) coefficient| ≤ 1 / 2 := by
  obtain ⟨kept, hkept⟩ : ∃ kept, coefficient / tenTo n = kept := ⟨_, rfl⟩
  have hpos : (0 : ℚ) < 10 ^ n := by positivity
  have hlow : (kept : ℚ) * 10 ^ n ≤ coefficient := by
    rw [← hkept, tenTo_eq]
    exact_mod_cast Nat.div_mul_le_self coefficient (10 ^ n)
  have hhigh : (coefficient : ℚ) < (kept + 1) * 10 ^ n := by
    have := Nat.lt_mul_div_succ coefficient (tenTo_pos n)
    rw [hkept, tenTo_eq, Nat.mul_comm] at this
    exact_mod_cast this
  obtain ⟨tens, units, hunits, rfl⟩ : ∃ tens units, units < 10 ∧ kept = 10 * tens + units :=
    ⟨kept / 10, kept % 10, Nat.mod_lt _ (by norm_num), (Nat.div_add_mod ..).symm⟩
  have hdiv : (10 * tens + units) / 10 = tens := by omega
  have hmod : (10 * tens + units) % 10 = units := by omega
  rw [← le_div_iff₀ hpos] at hlow
  rw [← div_lt_iff₀ hpos] at hhigh
  have hsplit : (coefficient : ℚ) / 10 ^ (n + 1) = coefficient / 10 ^ n / 10 := by
    rw [pow_succ, div_div]
  rw [hsplit, abs_le, dropDigits, hkept, hdiv, hmod]
  push_cast at hlow hhigh
  split_ifs with hfive
  · have hfive : (5 : ℚ) ≤ units := by exact_mod_cast hfive
    have hunits : (units : ℚ) + 1 ≤ 10 := by exact_mod_cast hunits
    push_cast
    constructor <;> linarith
  · have hfour : (units : ℚ) + 1 ≤ 5 := by exact_mod_cast Nat.lt_of_not_le hfive
    have hnonneg : (0 : ℚ) ≤ units := Nat.cast_nonneg units
    constructor <;> linarith

theorem dropDigits_of_zero (n : Nat) : dropDigits n 0 = 0 := by
  cases n with
  | zero => rfl
  | succ n => rw [dropDigits, Nat.zero_div, Nat.zero_mod, if_neg (by omega)]

/-! ## moving the point -/

section
variable {front : ℚ} {d d' : Decimal} {e : Nat}

theorem shiftDown_eq_ok (h : shiftDown d e = .ok d') :
    e ≤ maxScale ∧ d'.negative = d.negative ∧
      d'.coefficient = dropDigits (d.scale + e - maxScale) d.coefficient ∧
      d'.scale = d.scale + e - (d.scale + e - maxScale) := by
  unfold shiftDown at h
  dsimp only at h
  split_ifs at h with hgreat hfits
  obtain rfl := Except.ok.inj h
  exact ⟨Nat.not_lt.mp hgreat, rfl, rfl, rfl⟩

theorem shiftUp_eq_ok (h : shiftUp d e = .ok d') :
    d'.negative = d.negative ∧
      ((e ≤ d.scale ∧ d'.coefficient = d.coefficient ∧ d'.scale = d.scale - e) ∨
        (d.scale < e ∧ e ≤ maxScale ∧
          d'.coefficient = d.coefficient * tenTo (e - d.scale) ∧ d'.scale = 0)) := by
  unfold shiftUp at h
  dsimp only at h
  split_ifs at h with hle hgreat hfits
  · obtain rfl := Except.ok.inj h
    exact ⟨rfl, .inl ⟨hle, rfl, rfl⟩⟩
  · obtain rfl := Except.ok.inj h
    exact ⟨rfl, .inr ⟨Nat.not_le.mp hle, Nat.not_lt.mp hgreat, rfl, rfl⟩⟩

theorem near_of_shiftDown (hd : Approximates front d.coefficient d.scale)
    (h : shiftDown d e = .ok d') :
    (d.coefficient = 0 → d'.coefficient = 0) ∧
      Near front (front / 10 ^ e) d'.coefficient d'.scale := by
  obtain ⟨he, -, hcoefficient, hscale⟩ := shiftDown_eq_ok h
  have hle := d.scale_le
  rw [hcoefficient, hscale]
  refine ⟨fun hzero => by rw [hzero, dropDigits_of_zero], ?_⟩
  generalize hn : d.scale + e - maxScale = n
  cases n with
  | zero =>
    rw [dropDigits_zero, Nat.sub_zero]
    refine near_of_eq hd ?_
    rw [pow_add]
    field_simp
  | succ n =>
    have hlast : d.scale + e - (n + 1) = maxScale := by omega
    have hall : d.scale + e = maxScale + (n + 1) := by omega
    have hunits : front / 10 ^ e * 10 ^ maxScale = front * 10 ^ d.scale / 10 ^ (n + 1) := by
      rw [div_mul_eq_mul_div, div_eq_div_iff (by positivity) (by positivity), mul_assoc, mul_assoc,
        ← pow_add, ← pow_add, hall]
    have htenth :
        |front * 10 ^ d.scale / 10 ^ (n + 1) - d.coefficient / 10 ^ (n + 1)| ≤ 1 / 10 := by
      have hten : (10 : ℚ) ≤ 10 ^ (n + 1) := by
        rw [pow_succ]
        exact le_mul_of_one_le_left (by norm_num) (one_le_pow₀ (by norm_num))
      have hpos : (0 : ℚ) < 10 ^ (n + 1) := by positivity
      rw [← sub_div, abs_div, abs_of_pos hpos, div_le_div_iff₀ hpos (by norm_num)]
      have := hd.near
      linarith
    have hhalf := abs_sub_dropDigits_le n d.coefficient
    have hnear : |front / 10 ^ e * 10 ^ maxScale - dropDigits (n + 1) d.coefficient| < 1 := by
      rw [hunits]
      have := abs_sub_le (front * 10 ^ d.scale / 10 ^ (n + 1)) (d.coefficient / 10 ^ (n + 1))
        (dropDigits (n + 1) d.coefficient : ℚ)
      linarith
    rw [hlast]
    exact ⟨hnear, fun _ hfits => eq_of_abs_sub_lt_one (exists_of_fits hfits) hnear⟩

theorem near_of_shiftUp (hd : Approximates front d.coefficient d.scale)
    (h : shiftUp d e = .ok d') :
    (d.coefficient = 0 → d'.coefficient = 0) ∧
      Near front (front * 10 ^ e) d'.coefficient d'.scale := by
  obtain ⟨-, ⟨hle, hcoefficient, hscale⟩ | ⟨hlt, he, hcoefficient, hscale⟩⟩ := shiftUp_eq_ok h
  · rw [hcoefficient, hscale]
    refine ⟨id, near_of_eq hd ?_⟩
    rw [mul_assoc, ← pow_add, Nat.add_sub_cancel' hle]
  · obtain ⟨n, rfl⟩ := Nat.exists_eq_add_of_lt hlt
    rw [show d.scale + n + 1 - d.scale = n + 1 by omega] at hcoefficient
    refine ⟨fun hzero => by rw [hcoefficient, hzero, Nat.zero_mul], ?_⟩
    -- the coefficient that grows still fits, so that nothing had been cut off
    have hexact : front * 10 ^ d.scale = d.coefficient := by
      refine hd.exact_or_full.resolve_right ?_
      have hgrown := d'.coefficient_lt
      rw [hcoefficient, tenTo_succ] at hgrown
      have := Nat.le_mul_of_pos_right d.coefficient (tenTo_pos n)
      rintro (hfull | hfull)
      · omega
      · have : d.coefficient * (tenTo n * 10) = d.coefficient * tenTo n * 10 := by ring
        omega
    refine near_of_exact ?_
    rw [hcoefficient, hscale, pow_zero, mul_one, Nat.add_assoc, pow_add, ← mul_assoc, hexact,
      tenTo_eq]
    push_cast
    rfl

end

/-! ## the whole literal -/

theorem digits_behind_plus (cs : List Char) :
    digits (match cs with
      | '+' :: ds => ds
      | ds => ds) = digits cs := by
  split
  · exact (digits_cons_of_not _ rfl).symm
  · rfl

theorem readExponent?_eq_some {cs : List Char} {e : Nat} (h : readExponent? cs = some e) :
    ofDecimal (digits cs) = e := by
  unfold readExponent? at h
  dsimp only at h
  split_ifs at h with hall
  have hdigits := List.filter_eq_self.mpr (List.all_eq_true.mp hall.2.1)
  exact (congrArg ofDecimal ((digits_behind_plus cs).symm.trans hdigits)).trans (Option.some.inj h)

/-- the literal with a power of ten: its mantissa is a plain number, and its exponent moves the
point of that -/
theorem readScientific_eq_ok {cs : List Char} {d : Decimal} (h : readScientific cs = .ok d) :
    ∃ m, readPlain (mantissaText cs) = .ok m ∧
      ((∃ e : Nat, exponent cs = -e ∧ shiftDown m e = .ok d) ∨
        ∃ e : Nat, exponent cs = e ∧ shiftUp m e = .ok d) := by
  obtain ⟨m, hm, h⟩ := bind_eq_ok.mp h
  refine ⟨m, hm, ?_⟩
  unfold exponent
  rw [← exponentText] at h
  split at h
  case h_1 ds hds =>
    split at h
    case h_1 e he =>
      refine .inl ⟨e, ?_, h⟩
      rw [hds, digits_cons_of_not ds rfl, readExponent?_eq_some he]
      rfl
    case h_2 => cases h
  case h_2 ds hds =>
    split at h
    case h_1 e he =>
      refine .inr ⟨e, ?_, h⟩
      rw [readExponent?_eq_some he, signed, if_neg]
      intro hminus
      obtain ⟨ds, hds'⟩ := List.head?_eq_some_iff.mp hminus
      exact hds ds hds'
    case h_2 => cases h

/-- a literal without a power of ten is all mantissa -/
theorem exponent_of_plain {cs : List Char} (h : ∀ c ∈ cs, isExponentMark c = false) :
    mantissaText cs = cs ∧ exponent cs = 0 := by
  have hnone : ∀ c ∈ cs, (!isExponentMark c) = true := by
    intro c hc
    rw [h c hc]
    rfl
  refine ⟨List.takeWhile_eq_self_iff.mpr hnone, ?_⟩
  rw [exponent, exponentText, List.dropWhile_eq_nil_iff.mpr hnone]
  rfl

/-- every literal that is read: what is in front of the power of ten was read as a plain number -/
theorem near_of_read {cs : List Char} {d : Decimal} (h : read cs = .ok d) :
    (d.coefficient = 0 ∨ d.negative = ((mantissaText cs).head? == some '-')) ∧
      Near (magnitude (mantissaText cs)) (magnitude (mantissaText cs) * 10 ^ exponent cs)
        d.coefficient d.scale := by
  unfold read at h
  cases hplain : readPlain cs with
  | ok m =>
    rw [hplain] at h
    obtain rfl := Except.ok.inj h
    obtain ⟨hread, hmarks⟩ := readPlain_eq_ok hplain
    obtain ⟨hmantissa, hexponent⟩ := exponent_of_plain hmarks
    rw [hmantissa, hexponent, zpow_zero, mul_one]
    exact ⟨hread.sign, hread.approximates.near, fun _ => hread.approximates.exact_of_fits⟩
  | error f =>
    rw [hplain] at h
    split_ifs at h
    obtain ⟨m, hm, hshift⟩ := readScientific_eq_ok h
    obtain ⟨⟨hsign, happroximates⟩, -⟩ := readPlain_eq_ok hm
    rcases hshift with ⟨e, he, hshift⟩ | ⟨e, he, hshift⟩
    · obtain ⟨hzero, hnear⟩ := near_of_shiftDown happroximates hshift
      rw [he, zpow_neg, zpow_natCast, ← div_eq_mul_inv]
      exact ⟨hsign.imp hzero fun hm => (shiftDown_eq_ok hshift).2.1.trans hm, hnear⟩
    · obtain ⟨hzero, hnear⟩ := near_of_shiftUp happroximates hshift
      rw [he, zpow_natCast]
      exact ⟨hsign.imp hzero fun hm => (shiftUp_eq_ok hshift).1.trans hm, hnear⟩

/-! ## decimals and literals with their signs -/

section
variable {cs : List Char} {d : Decimal}

theorem signed_sub (x y : ℚ) : signed cs x - signed cs y = signed cs (x - y) := by
  unfold signed
  split_ifs
  · ring
  · rfl

theorem signed_mul (x y : ℚ) : signed cs x * y = signed cs (x * y) := by
  unfold signed
  split_ifs
  · rw [neg_mul]
  · rfl

theorem abs_signed (x : ℚ) : |signed cs x| = |x| := by
  unfold signed
  split_ifs
  · rw [abs_neg]
  · rfl

theorem fits_signed_iff (x : ℚ) : Fits (signed cs x) ↔ Fits x := by
  unfold signed
  split_ifs
  · exact ⟨fun h => neg_neg x ▸ fits_neg h, fits_neg⟩
  · rfl

theorem value_eq_signed (h : d.coefficient = 0 ∨ d.negative = (cs.head? == some '-')) :
    d.value = signed cs ((d.coefficient : ℚ) / 10 ^ d.scale) := by
  rw [value, mantissa, signed]
  rcases h with hzero | hsign
  · rw [hzero]
    simp
  · rw [hsign]
    by_cases hminus : cs.head? = some '-'
    · rw [if_pos hminus, if_pos (beq_iff_eq.mpr hminus), Int.cast_neg, neg_div]
      rfl
    · rw [if_neg hminus, if_neg (by rwa [beq_iff_eq])]
      rfl

theorem spelled_eq (cs : List Char) : spelled cs =
    signed (mantissaText cs) (magnitude (mantissaText cs) * 10 ^ exponent cs) := signed_mul ..

theorem abs_value_sub_lt (h : read cs = .ok d) : |d.value - spelled cs| < 1 / 10 ^ d.scale := by
  obtain ⟨hsign, hnear⟩ := near_of_read h
  have hpos : (0 : ℚ) < 10 ^ d.scale := by positivity
  rw [value_eq_signed hsign, spelled_eq, signed_sub, abs_signed, abs_sub_comm, lt_div_iff₀ hpos,
    ← abs_of_pos hpos, ← abs_mul, abs_of_pos hpos, sub_mul, div_mul_cancel₀ _ hpos.ne']
  exact hnear.near

theorem abs_spelled_lt (h : read cs = .ok d) : |spelled cs| < coefficientLimit := by
  have hpos : (0 : ℚ) < 10 ^ d.scale := by positivity
  have hone : (1 : ℚ) ≤ 10 ^ d.scale := one_le_pow₀ (by norm_num)
  have hnear := abs_value_sub_lt h
  have hvalue : |d.value| + 1 / 10 ^ d.scale ≤ coefficientLimit := by
    rw [abs_value, ← add_div, div_le_iff₀ hpos]
    have hlt : (d.coefficient : ℚ) + 1 ≤ coefficientLimit := by exact_mod_cast d.coefficient_lt
    exact hlt.trans (le_mul_of_one_le_right (Nat.cast_nonneg _) hone)
  have := abs_sub_abs_le_abs_sub (spelled cs) d.value
  rw [abs_sub_comm] at hnear
  linarith

theorem value_eq_iff (h : read cs = .ok d) (hfront : Fits (magnitude (mantissaText cs))) :
    d.value = spelled cs ↔ Fits (spelled cs) := by
  refine ⟨fun heq => ⟨d, heq⟩, fun hfits => ?_⟩
  obtain ⟨hsign, hnear⟩ := near_of_read h
  rw [spelled_eq, fits_signed_iff] at hfits
  rw [value_eq_signed hsign, spelled_eq, ← hnear.exact_of_fits hfront hfits,
    mul_div_cancel_right₀ _ (by positivity)]

/-- without a power of ten nothing is in front of it -/
theorem value_eq_iff_of_plain (h : read cs = .ok d) (hplain : ∀ c ∈ cs, isExponentMark c = false) :
    d.value = spelled cs ↔ Fits (spelled cs) := by
  refine ⟨fun heq => ⟨d, heq⟩, fun hfits => (value_eq_iff h ?_).mpr hfits⟩
  rwa [spelled_eq, (exponent_of_plain hplain).2, zpow_zero, mul_one, fits_signed_iff] at hfits

end
end SavedFilter.Decimal
