import Mathlib.Algebra.Order.Field.Basic
import Mathlib.Algebra.Order.Field.Rat
import Mathlib.Tactic.FieldSimp
import Mathlib.Tactic.Linarith
import Mathlib.Tactic.Positivity
import SavedFilter.Decimal.Reader
import SavedFilter.Proofs.Text.Digits

/-!
# The number that a decimal literal spells

The digits of a literal, its point, its sign and its power of ten make a rational number
(`spelled`), of any length; a decimal is one too (`value`).  `pending` is that number while the
literal is read: a digit that goes into the coefficient does not change it.
-/

namespace SavedFilter.Decimal
open Text

/-! ## the number that a literal spells -/

/-- the number that a decimal is -/
def value (d : Decimal) : ℚ := d.mantissa / 10 ^ d.scale

def digits (cs : List Char) : List Char := cs.filter Char.isDigit

/-- the digits behind the point -/
def decimals (cs : List Char) : List Char := digits (cs.dropWhile (· != '.'))

/-- the number that digits and a point spell -/
def magnitude (cs : List Char) : ℚ := ofDecimal (digits cs) / 10 ^ (decimals cs).length

/-- `x`, or `-x` for a text that begins with a minus sign -/
def signed {α : Type} [Neg α] (cs : List Char) (x : α) : α :=
  if cs.head? = some '-' then -x else x

def mantissaText (cs : List Char) : List Char := cs.takeWhile (!isExponentMark ·)

def exponentText (cs : List Char) : List Char := (cs.dropWhile (!isExponentMark ·)).drop 1

/-- the power of ten behind the `e`, zero if there is none -/
def exponent (cs : List Char) : Int :=
  signed (exponentText cs) (ofDecimal (digits (exponentText cs)))

/-- the number that a literal spells -/
def spelled (cs : List Char) : ℚ :=
  signed (mantissaText cs) (magnitude (mantissaText cs)) * 10 ^ exponent cs

/-! ## digits that are still to be read -/

/-- the number whose first digits have been read into a coefficient and a scale -/
def pending (behindPoint : Bool) (coefficient scale : Nat) (cs : List Char) : ℚ :=
  (coefficient * 10 ^ (digits cs).length + ofDecimal (digits cs)) /
    10 ^ (scale + if behindPoint then (digits cs).length else (decimals cs).length)

theorem digits_cons_of_isDigit {c : Char} (cs : List Char) (h : c.isDigit = true) :
    digits (c :: cs) = c :: digits cs := List.filter_cons_of_pos h

theorem digits_cons_of_not {c : Char} (cs : List Char) (h : c.isDigit = false) :
    digits (c :: cs) = digits cs :=
  List.filter_cons_of_neg (by rw [h]; exact Bool.false_ne_true)

theorem decimals_cons_of_ne {c : Char} (cs : List Char) (h : c ≠ '.') :
    decimals (c :: cs) = decimals cs := by
  have hc : (c != '.') = true := bne_iff_ne.mpr h
  rw [decimals, List.dropWhile_cons, if_pos hc]
  rfl

theorem decimals_point (cs : List Char) : decimals ('.' :: cs) = digits cs :=
  digits_cons_of_not cs rfl

section
variable {behindPoint : Bool} {coefficient scale : Nat}

theorem pending_nil : pending behindPoint coefficient scale [] = coefficient / 10 ^ scale := by
  cases behindPoint <;> simp [pending, digits, decimals, ofDecimal_nil]

/-- a digit goes into the coefficient, and behind the point into the scale -/
theorem pending_digit {c : Char} (cs : List Char) (h : c.isDigit = true) :
    pending behindPoint coefficient scale (c :: cs) =
      pending behindPoint (10 * coefficient + (c.toNat - 48))
        (if behindPoint then scale + 1 else scale) cs := by
  have hvalue : (coefficient : ℚ) * 10 ^ ((digits cs).length + 1) +
      ofDecimal (c :: digits cs) =
      ((10 * coefficient + (c.toNat - 48) : Nat) : ℚ) * 10 ^ (digits cs).length +
        ofDecimal (digits cs) := by
    rw [ofDecimal_cons, tenTo_eq]
    push_cast
    ring
  rw [pending, pending, digits_cons_of_isDigit cs h, List.length_cons, hvalue,
    decimals_cons_of_ne cs (ne_of_isDigit h rfl)]
  cases behindPoint with
  | false => rfl
  | true => rw [if_pos rfl, if_pos rfl, if_pos rfl, Nat.add_right_comm, Nat.add_assoc scale]

theorem pending_point (cs : List Char) :
    pending false coefficient scale ('.' :: cs) = pending true coefficient scale cs := by
  rw [pending, pending, decimals_point, digits_cons_of_not cs rfl]
  rfl

theorem pending_underscore (cs : List Char) :
    pending behindPoint coefficient scale ('_' :: cs) =
      pending behindPoint coefficient scale cs := by
  rw [pending, pending, decimals_cons_of_ne cs (by decide), digits_cons_of_not cs rfl]

/-- nothing has been read yet -/
theorem pending_zero (cs : List Char) : pending false 0 0 cs = magnitude cs := by
  rw [pending, magnitude, Nat.cast_zero, zero_mul, zero_add, Nat.zero_add]
  rfl

/-- behind the point the digits that are not yet read make a fraction of one unit -/
theorem pending_mul (cs : List Char) :
    pending true coefficient scale cs * 10 ^ scale =
      coefficient + ofDecimal (digits cs) / 10 ^ (digits cs).length := by
  rw [pending, if_pos rfl, pow_add]
  field_simp

end

theorem isDigit_of_mem_digits {cs : List Char} {c : Char} (h : c ∈ digits cs) :
    c.isDigit = true := (List.mem_filter.mp h).2

/-- the digits that are not yet read make less than one -/
theorem fraction_lt_one (cs : List Char) :
    0 ≤ (ofDecimal (digits cs) : ℚ) / 10 ^ (digits cs).length ∧
      (ofDecimal (digits cs) : ℚ) / 10 ^ (digits cs).length < 1 := by
  have hlt : ofDecimal (digits cs) < 10 ^ (digits cs).length :=
    ofDecimal_lt fun _ => isDigit_of_mem_digits
  refine ⟨by positivity, ?_⟩
  rw [div_lt_one (by positivity)]
  exact_mod_cast hlt

/-- they make at least as much as the first of them alone -/
theorem digit_le_fraction {c : Char} (cs : List Char) (h : c.isDigit = true) :
    ((c.toNat - 48 : Nat) : ℚ) ≤
      ofDecimal (digits (c :: cs)) / 10 ^ (digits (c :: cs)).length * 10 := by
  rw [digits_cons_of_isDigit cs h, ofDecimal_cons, tenTo_eq, List.length_cons, pow_succ,
    div_mul_eq_mul_div, mul_div_mul_right _ _ (by positivity), le_div_iff₀ (by positivity)]
  exact_mod_cast Nat.le_add_right ..

/-! ## numbers that a decimal can be -/

def Fits (q : ℚ) : Prop := ∃ d : Decimal, d.value = q

theorem abs_value (d : Decimal) : |d.value| = d.coefficient / 10 ^ d.scale := by
  have hpos : (0 : ℚ) < 10 ^ d.scale := by positivity
  rw [value, abs_div, abs_of_pos hpos, mantissa]
  split <;> simp

theorem fits_neg {q : ℚ} (h : Fits q) : Fits (-q) := by
  obtain ⟨d, rfl⟩ := h
  refine ⟨⟨!d.negative, d.coefficient, d.scale, d.coefficient_lt, d.scale_le⟩, ?_⟩
  rw [value, value, mantissa, mantissa]
  cases d.negative <;> simp [neg_div]

end SavedFilter.Decimal
