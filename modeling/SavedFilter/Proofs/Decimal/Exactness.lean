import Mathlib.Tactic.SplitIfs
import SavedFilter.Proofs.Decimal.Spelling
import SavedFilter.Proofs.Except

/-!
# How exactly a decimal is read

Digits for which there is no room are cut off and the first of them rounds, so that a literal may be
read as another number than it spells.  Here for the plain form, without a power of ten:

* `not_fits`          a number with more digits than there is room for is no decimal;
* `Approximates`      what holds of the coefficient and the scale when digits are cut off;
* `readFrom_scan`     and so of everything that the plain form accepts;
* `readPlain_eq_ok`   behind a sign or without one.
-/

namespace SavedFilter.Decimal
open Text

/-! ## digits that are cut off -/

/-- A number between two neighbours is no decimal if there is no room for another digit, behind the
point or in the coefficient. -/
theorem not_fits {q : ℚ} {coefficient scale : Nat} (hlow : coefficient < q * 10 ^ scale)
    (hhigh : q * 10 ^ scale < coefficient + 1)
    (hfull : maxScale ≤ scale ∨ (coefficientLimit : ℚ) ≤ q * 10 ^ scale * 10) : ¬ Fits q := by
  rintro ⟨e, he⟩
  have hpos : (0 : ℚ) < 10 ^ scale := by positivity
  have hq : q = e.coefficient / 10 ^ e.scale := by
    have hnonneg : 0 ≤ q := by
      by_contra hneg
      have := mul_neg_of_neg_of_pos (not_le.mp hneg) hpos
      have : (0 : ℚ) ≤ coefficient := Nat.cast_nonneg coefficient
      linarith
    rw [← abs_value, he, abs_of_nonneg hnonneg]
  rcases le_or_gt e.scale scale with hle | hgt
  · -- all digits of the decimal are in front of the gap
    obtain ⟨n, rfl⟩ := Nat.exists_eq_add_of_le hle
    have hwhole : q * 10 ^ (e.scale + n) = (e.coefficient * 10 ^ n : Nat) := by
      rw [hq, pow_add]
      push_cast
      field_simp
    rw [hwhole] at hlow hhigh
    have hlow : coefficient < e.coefficient * 10 ^ n := by exact_mod_cast hlow
    have hhigh : e.coefficient * 10 ^ n < coefficient + 1 := by exact_mod_cast hhigh
    omega
  · -- the decimal has a digit more
    have hroom : ¬ maxScale ≤ scale := not_le.mpr (lt_of_lt_of_le hgt e.scale_le)
    have hlimit := hfull.resolve_left hroom
    have hgrow : q * 10 ^ scale * 10 ≤ e.coefficient := by
      obtain ⟨n, hn⟩ := Nat.exists_eq_add_of_lt hgt
      have hten : (1 : ℚ) ≤ 10 ^ n := one_le_pow₀ (by norm_num)
      have hcoefficient : (e.coefficient : ℚ) = q * 10 ^ scale * 10 * 10 ^ n := by
        rw [hq, hn]
        field_simp
        ring
      rw [hcoefficient]
      refine le_mul_of_one_le_right ?_ hten
      have : (0 : ℚ) ≤ coefficient := Nat.cast_nonneg coefficient
      linarith
    have hlt : (e.coefficient : ℚ) < coefficientLimit := by exact_mod_cast e.coefficient_lt
    linarith

/-- A coefficient and a scale are less than one unit of the last place away from a number.  They
only differ from it if there is no room for another digit, and then it is no decimal. -/
structure Approximates (q : ℚ) (coefficient scale : Nat) : Prop where
  near : |q * 10 ^ scale - coefficient| < 1
  exact_or_full : q * 10 ^ scale = coefficient ∨ maxScale ≤ scale ∨
    coefficientLimit ≤ 10 * coefficient
  exact_of_fits : Fits q → q * 10 ^ scale = coefficient

theorem approximates_of_eq {q : ℚ} {coefficient scale : Nat}
    (h : q * 10 ^ scale = coefficient) : Approximates q coefficient scale := by
  refine ⟨?_, .inl h, fun _ => h⟩
  rw [h, sub_self, abs_zero]
  exact one_pos

/-- a decimal with the sign of its literal that approximates the number without that sign -/
structure ReadFrom (d : Decimal) (negative : Bool) (q : ℚ) : Prop where
  sign : d.coefficient = 0 ∨ d.negative = negative
  approximates : Approximates q d.coefficient d.scale

section
variable {negative : Bool} {coefficient scale : Nat} {d : Decimal}

theorem readFrom_finish (h : finish negative coefficient scale = .ok d) {q : ℚ}
    (hq : Approximates q coefficient scale) : ReadFrom d negative q := by
  unfold finish at h
  split_ifs at h
  obtain rfl := Except.ok.inj h
  refine ⟨?_, hq⟩
  cases hzero : coefficient != 0 with
  | false => exact .inl (by simpa using hzero)
  | true => exact .inr (Bool.and_true negative)

/-- The first digit that is cut off is at least five: one more is nearer than one unit, and so is
the tenth of a coefficient that has outgrown its bits. -/
theorem approximates_roundUp {q : ℚ} {k s : Nat} (hlt : coefficient < coefficientLimit)
    (hlow : coefficient < q * 10 ^ scale) (hhigh : q * 10 ^ scale < coefficient + 1)
    (hfull : maxScale ≤ scale ∨ coefficientLimit ≤ 10 * (coefficient + 1)) (hfits : ¬ Fits q)
    (h : roundUp coefficient scale = .ok (k, s)) : Approximates q k s := by
  unfold roundUp at h
  split_ifs at h with hroom hzero
  · obtain ⟨rfl, rfl⟩ := Prod.mk.inj (Except.ok.inj h)
    refine ⟨?_, .inr hfull, fun hq => absurd hq hfits⟩
    rw [abs_lt]
    push_cast
    constructor <;> linarith
  · obtain ⟨rfl, rfl⟩ := Prod.mk.inj (Except.ok.inj h)
    have hscale : q * 10 ^ scale = q * 10 ^ (scale - 1) * 10 := by
      rw [mul_assoc, ← pow_succ, Nat.sub_add_cancel (Nat.pos_of_ne_zero hzero)]
    have hle : (10 : ℚ) * ((coefficient + 5) / 10 : Nat) ≤ coefficient + 5 := by
      exact_mod_cast Nat.mul_div_le (coefficient + 5) 10
    have hge : (coefficient : ℚ) + 5 < 10 * ((coefficient + 5) / 10 : Nat) + 10 := by
      exact_mod_cast show coefficient + 5 < 10 * ((coefficient + 5) / 10) + 10 by omega
    refine ⟨?_, .inr (.inr (by unfold coefficientLimit at *; omega)), fun hq => absurd hq hfits⟩
    rw [hscale] at hlow hhigh
    rw [abs_lt]
    constructor <;> linarith

/-- what is cut off begins with a digit or an underscore; a digit of five or more rounds up -/
theorem cutAt_eq_ok {c : Char} {cs : List Char}
    (h : cutAt negative coefficient scale c cs = .ok d) :
    (c.isDigit || c == '_') = true ∧ checkDropped cs = .ok () ∧
      ∃ k s, finish negative k s = .ok d ∧
        (if '5' ≤ c && c.isDigit then roundUp coefficient scale
          else .ok (coefficient, scale)) = .ok (k, s) := by
  unfold cutAt at h
  dsimp only at h
  cases hallowed : c.isDigit || c == '_' with
  | false =>
    rw [hallowed] at h
    cases h
  | true =>
    rw [hallowed, Bool.not_true, if_neg Bool.false_ne_true] at h
    refine ⟨rfl, ?_⟩
    split_ifs at h ⊢
    all_goals
      obtain ⟨⟨k, s⟩, hround, h⟩ := bind_eq_ok.mp h
      obtain ⟨u, hdropped, h⟩ := bind_eq_ok.mp h
      exact ⟨hdropped, k, s, h, hround⟩

/-- the digits that are cut off change the number by less than one unit -/
theorem readFrom_cutAt {c : Char} {cs : List Char} (hlt : coefficient < coefficientLimit)
    (hfull : maxScale ≤ scale ∨
      c.isDigit = true ∧ coefficientLimit ≤ 10 * coefficient + (c.toNat - 48))
    (h : cutAt negative coefficient scale c cs = .ok d) :
    ReadFrom d negative (pending true coefficient scale (c :: cs)) := by
  obtain ⟨-, -, k, s, hfinish, hround⟩ := cutAt_eq_ok h
  refine readFrom_finish hfinish ?_
  obtain ⟨hlow, hhigh⟩ := fraction_lt_one (c :: cs)
  have hdigits := digit_le_fraction (c := c) cs
  have hunits : pending true coefficient scale (c :: cs) * 10 ^ scale = coefficient + _ :=
    pending_mul (c :: cs)
  generalize (ofDecimal (digits (c :: cs)) : ℚ) / 10 ^ (digits (c :: cs)).length = part at *
  generalize pending true coefficient scale (c :: cs) = q at *
  have hlimit : maxScale ≤ scale ∨ (coefficientLimit : ℚ) ≤ q * 10 ^ scale * 10 := by
    refine hfull.imp id fun hfull => ?_
    obtain ⟨hdigit, hwide⟩ := hfull
    have hwide : (coefficientLimit : ℚ) ≤ 10 * coefficient + (c.toNat - 48 : Nat) := by
      exact_mod_cast hwide
    have := hdigits hdigit
    linarith
  have habove : q * 10 ^ scale < coefficient + 1 := by linarith
  split_ifs at hround with hfive
  · obtain ⟨hfive, hdigit⟩ := Bool.and_eq_true_iff.mp hfive
    have hfour : (4 : ℚ) < (c.toNat - 48 : Nat) := by
      have : 53 ≤ c.toNat := of_decide_eq_true hfive
      exact_mod_cast show 4 < c.toNat - 48 by omega
    have hbelow : (coefficient : ℚ) < q * 10 ^ scale := by
      have := hdigits hdigit
      linarith
    have hnine := toNat_sub_lt_ten hdigit
    exact approximates_roundUp hlt hbelow habove (hfull.imp id fun hwide => by omega)
      (not_fits hbelow habove hlimit) hround
  · obtain ⟨rfl, rfl⟩ := Prod.mk.inj (Except.ok.inj hround)
    rcases hlow.eq_or_lt with rfl | hpos
    · exact approximates_of_eq (by rw [hunits, add_zero])
    · have hbelow : (coefficient : ℚ) < q * 10 ^ scale := by linarith
      refine ⟨?_, .inr (hfull.imp id fun hfull => ?_),
        fun hfits => absurd hfits (not_fits hbelow habove hlimit)⟩
      · rw [hunits, add_sub_cancel_left, abs_of_nonneg hlow]
        exact hhigh
      · obtain ⟨hdigit, hwide⟩ := hfull
        have hsmall : c.toNat < 53 := by
          by_contra hlarge
          have hle : '5' ≤ c := show 53 ≤ c.toNat by omega
          exact hfive (by rw [decide_eq_true hle, hdigit]; rfl)
        unfold coefficientLimit at *
        omega

/-- underscores in front of the digit that rounds are no digits -/
theorem pending_dropWhile_underscore (cs : List Char) :
    pending true coefficient scale (cs.dropWhile (· == '_')) =
      pending true coefficient scale cs := by
  induction cs with
  | nil => rfl
  | cons c cs ih =>
    rcases eq_or_ne c '_' with rfl | hne
    · rw [List.dropWhile_cons_of_pos rfl, ih, pending_underscore]
    · rw [List.dropWhile_cons_of_neg (by rwa [beq_iff_eq])]

theorem readFrom_cutAtScale {cs : List Char} (hlt : coefficient < coefficientLimit)
    (hscale : maxScale ≤ scale) (h : cutAtScale negative coefficient scale cs = .ok d) :
    ReadFrom d negative (pending true coefficient scale cs) := by
  obtain ⟨ds, hds, hrest⟩ : ∃ ds, pending true coefficient scale ds =
      pending true coefficient scale cs ∧
      (if isWide coefficient then cs.dropWhile (· == '_') else cs) = ds := by
    refine ⟨_, ?_, rfl⟩
    split_ifs
    · exact pending_dropWhile_underscore cs
    · rfl
  unfold cutAtScale at h
  rw [hrest] at h
  rw [← hds]
  cases ds with
  | nil =>
    refine readFrom_finish h (approximates_of_eq ?_)
    rw [pending_nil, div_mul_cancel₀ _ (by positivity)]
  | cons c ds => exact readFrom_cutAt hlt (.inl hscale) h

end

/-! ## the plain form -/

section
variable {negative behindPoint started : Bool} {coefficient scale : Nat} {c : Char}
  {cs : List Char} {d : Decimal}

/-- what can be done with the next character of a number that is read -/
theorem scan_cons_eq_ok
    (h : scan negative behindPoint started coefficient scale (c :: cs) = .ok d) :
    (behindPoint = true ∧ maxScale ≤ scale ∧
      cutAtScale negative coefficient scale (c :: cs) = .ok d) ∨
    (c.isDigit = true ∧ 10 * coefficient + (c.toNat - 48) < coefficientLimit ∧
      scan negative behindPoint true (10 * coefficient + (c.toNat - 48))
        (if behindPoint then scale + 1 else scale) cs = .ok d) ∨
    (behindPoint = true ∧ c.isDigit = true ∧
      coefficientLimit ≤ 10 * coefficient + (c.toNat - 48) ∧
      cutAt negative coefficient scale c cs = .ok d) ∨
    (behindPoint = false ∧ c = '.' ∧ scan negative true started coefficient scale cs = .ok d) ∨
    (c = '_' ∧ scan negative behindPoint started coefficient scale cs = .ok d) := by
  unfold scan at h
  dsimp only at h
  by_cases hfull : (behindPoint && maxScale ≤ scale) = true
  · rw [if_pos hfull] at h
    obtain ⟨hpoint, hscale⟩ := Bool.and_eq_true_iff.mp hfull
    exact .inl ⟨hpoint, of_decide_eq_true hscale, h⟩
  rw [if_neg hfull] at h
  by_cases hdigit : c.isDigit = true
  · rw [if_pos hdigit] at h
    by_cases hroom : 10 * coefficient + (c.toNat - 48) < coefficientLimit
    · rw [if_pos hroom] at h
      exact .inr (.inl ⟨hdigit, hroom, h⟩)
    · rw [if_neg hroom] at h
      cases behindPoint with
      | false => cases h
      | true => exact .inr (.inr (.inl ⟨rfl, hdigit, Nat.not_lt.mp hroom, h⟩))
  · rw [if_neg hdigit] at h
    split_ifs at h with hpoint hunderscore
    · obtain ⟨hc, hfront⟩ := Bool.and_eq_true_iff.mp hpoint
      rw [Bool.not_eq_true'] at hfront
      exact .inr (.inr (.inr (.inl ⟨hfront, of_decide_eq_true hc, h⟩)))
    · obtain ⟨hc, -⟩ := Bool.and_eq_true_iff.mp hunderscore
      exact .inr (.inr (.inr (.inr ⟨of_decide_eq_true hc, h⟩)))

/-- Digit by digit nothing is lost, until there is no room. -/
theorem readFrom_scan (hlt : coefficient < coefficientLimit)
    (h : scan negative behindPoint started coefficient scale cs = .ok d) :
    ReadFrom d negative (pending behindPoint coefficient scale cs) := by
  induction cs generalizing behindPoint started coefficient scale with
  | nil =>
    unfold scan at h
    split_ifs at h
    refine readFrom_finish h (approximates_of_eq ?_)
    rw [pending_nil, div_mul_cancel₀ _ (by positivity)]
  | cons c cs ih =>
    obtain ⟨rfl, hscale, hcut⟩ | ⟨hdigit, hroom, hnext⟩ | ⟨rfl, hdigit, hwide, hcut⟩ |
      ⟨rfl, rfl, hnext⟩ | ⟨rfl, hnext⟩ := scan_cons_eq_ok h
    · exact readFrom_cutAtScale hlt hscale hcut
    · rw [pending_digit cs hdigit]
      exact ih hroom hnext
    · exact readFrom_cutAt hlt (.inr ⟨hdigit, hwide⟩) hcut
    · rw [pending_point]
      exact ih hlt hnext
    · rw [pending_underscore]
      exact ih hlt hnext

/-- the characters that may stand behind the sign -/
def isPlain (c : Char) : Bool := c.isDigit || c == '_' || c == '.'

theorem isPlain_of_checkDropped (h : checkDropped cs = .ok ()) (hc : c ∈ cs) :
    isPlain c = true := by
  induction cs with
  | nil => cases hc
  | cons first cs ih =>
    unfold checkDropped at h
    split_ifs at h with hfirst
    rcases List.mem_cons.mp hc with rfl | hc
    · rw [isPlain, hfirst, Bool.true_or]
    · exact ih h hc

theorem isPlain_of_cutAt {first : Char} (h : cutAt negative coefficient scale first cs = .ok d)
    (hc : c ∈ first :: cs) : isPlain c = true := by
  obtain ⟨hfirst, hdropped, -⟩ := cutAt_eq_ok h
  rcases List.mem_cons.mp hc with rfl | hc
  · rw [isPlain, hfirst, Bool.true_or]
  · exact isPlain_of_checkDropped hdropped hc

theorem isPlain_of_cutAtScale (h : cutAtScale negative coefficient scale cs = .ok d)
    (hc : c ∈ cs) : isPlain c = true := by
  have hrest : (c == '_') = true ∨
      c ∈ (if isWide coefficient then cs.dropWhile (· == '_') else cs) := by
    split_ifs
    · rw [← List.takeWhile_append_dropWhile (p := (· == '_')) (l := cs)] at hc
      exact (List.mem_append.mp hc).imp_left fun hc => List.mem_takeWhile_imp (p := (· == '_')) hc
    · exact .inr hc
  unfold cutAtScale at h
  generalize (if isWide coefficient then cs.dropWhile (· == '_') else cs) = ds at h hrest
  rcases hrest with hunderscore | hc
  · rw [eq_of_beq hunderscore]
    rfl
  · cases ds with
    | nil => cases hc
    | cons first ds => exact isPlain_of_cutAt h hc

theorem isPlain_of_scan (h : scan negative behindPoint started coefficient scale cs = .ok d)
    (hc : c ∈ cs) : isPlain c = true := by
  induction cs generalizing behindPoint started coefficient scale with
  | nil => cases hc
  | cons first cs ih =>
    obtain ⟨-, -, h⟩ | ⟨hfirst, -, h⟩ | ⟨-, -, -, h⟩ | ⟨-, hfirst, h⟩ | ⟨hfirst, h⟩ :=
      scan_cons_eq_ok h
    · exact isPlain_of_cutAtScale h hc
    · rcases List.mem_cons.mp hc with rfl | hc
      · rw [isPlain, hfirst, Bool.true_or, Bool.true_or]
      · exact ih h hc
    · exact isPlain_of_cutAt h hc
    · rcases List.mem_cons.mp hc with rfl | hc
      · rw [hfirst]
        rfl
      · exact ih h hc
    · rcases List.mem_cons.mp hc with rfl | hc
      · rw [hfirst]
        rfl
      · exact ih h hc

end

theorem isExponentMark_of_isPlain {c : Char} (h : isPlain c = true) :
    isExponentMark c = false := by
  rw [isExponentMark, Bool.or_eq_false_iff, beq_eq_false_iff_ne, beq_eq_false_iff_ne]
  constructor
  · rintro rfl
    cases h
  · rintro rfl
    cases h

/-- a plain number, its sign and what stands behind it -/
theorem readPlain_eq_ok {cs : List Char} {d : Decimal} (h : readPlain cs = .ok d) :
    ReadFrom d (cs.head? == some '-') (magnitude cs) ∧ ∀ c ∈ cs, isExponentMark c = false := by
  have hscan {negative : Bool} {rest : List Char} (h : scan negative false false 0 0 rest = .ok d) :
      ReadFrom d negative (magnitude rest) ∧ ∀ c ∈ rest, isExponentMark c = false := by
    have hread := readFrom_scan (by decide) h
    rw [pending_zero] at hread
    exact ⟨hread, fun c hc => isExponentMark_of_isPlain (isPlain_of_scan h hc)⟩
  have hsign {sign : Char} {rest : List Char} (hdigit : sign.isDigit = false)
      (hpoint : sign ≠ '.') : magnitude (sign :: rest) = magnitude rest := by
    rw [magnitude, magnitude, digits_cons_of_not rest hdigit, decimals_cons_of_ne rest hpoint]
  unfold readPlain at h
  cases cs with
  | nil => cases h
  | cons c rest =>
    dsimp only at h
    split_ifs at h with hminus hplus
    · subst hminus
      rw [hsign rfl (by decide)]
      exact ⟨(hscan h).1, List.forall_mem_cons.mpr ⟨rfl, (hscan h).2⟩⟩
    · subst hplus
      rw [hsign rfl (by decide)]
      exact ⟨(hscan h).1, List.forall_mem_cons.mpr ⟨rfl, (hscan h).2⟩⟩
    · have hnot : ((c :: rest).head? == some '-') = false := by
        rw [List.head?_cons, beq_eq_false_iff_ne]
        exact fun hc => hminus (Option.some.inj hc)
      rw [hnot]
      exact hscan h

end SavedFilter.Decimal
