import Mathlib.Data.List.Basic
import Mathlib.Tactic.Ring
import SavedFilter.Proofs.Text.Runs
import SavedFilter.Text.Digits

/-!
# Digits that are read back

What `decimal`, `padded` and `hex` write consists of digits, has the length it should have, and
spells the number it was made from.
-/

namespace SavedFilter.Text

theorem tenTo_eq (n : Nat) : tenTo n = 10 ^ n := rfl

theorem tenTo_pos (n : Nat) : 0 < tenTo n := Nat.pow_pos (by omega)

theorem tenTo_add (m n : Nat) : tenTo (m + n) = tenTo m * tenTo n := Nat.pow_add 10 m n

theorem tenTo_le_tenTo {m n : Nat} (h : m ≤ n) : tenTo m ≤ tenTo n :=
  Nat.pow_le_pow_right (by omega) h

/-! ## decimal digits -/

theorem ne_of_isDigit {c x : Char} (hc : c.isDigit = true) (hx : x.isDigit = false) : c ≠ x := by
  rintro rfl
  exact absurd (hx.symm.trans hc) (by decide)

theorem isDigit_of_mem_decimal {n : Nat} {c : Char} (h : c ∈ decimal n) : c.isDigit = true :=
  Nat.isDigit_of_mem_toDigits (by omega) (by omega) h

theorem decimal_ne_nil (n : Nat) : decimal n ≠ [] := Nat.toDigits_ne_nil

theorem length_decimal_pos (n : Nat) : 0 < (decimal n).length := Nat.length_toDigits_pos

theorem length_decimal_le_iff {n k : Nat} (h : 0 < k) :
    (decimal n).length ≤ k ↔ n < tenTo k := Nat.length_toDigits_le_iff (by omega) h

theorem decimal_of_ten_le {n : Nat} (h : 10 ≤ n) :
    decimal n = decimal (n / 10) ++ [Nat.digitChar (n % 10)] :=
  Nat.toDigits_of_base_le (by omega) h

theorem decimal_of_lt_ten {n : Nat} (h : n < 10) : decimal n = [Nat.digitChar n] :=
  Nat.toDigits_of_lt_base h

/-- a number other than zero does not begin with a zero -/
theorem head?_decimal_ne {n : Nat} (h : 0 < n) : (decimal n).head? ≠ some '0' := by
  induction n using Nat.strong_induction_on with
  | _ n ih =>
    rcases Nat.lt_or_ge n 10 with hn | hn
    · have hd : ∀ d < 10, 0 < d → Nat.digitChar d ≠ '0' := by decide
      rw [decimal_of_lt_ten hn, List.head?_cons]
      intro he
      exact hd n hn h (Option.some.inj he)
    · rw [decimal_of_ten_le hn, List.head?_append_of_ne_nil _ (decimal_ne_nil _)]
      exact ih (n / 10) (by omega) (by omega)

theorem decimal_mul_ten {n : Nat} (h : 0 < n) : decimal (n * 10) = decimal n ++ ['0'] := by
  rw [decimal_of_ten_le (by omega), Nat.mul_div_cancel _ (by omega), Nat.mul_mod_left]
  rfl

theorem decimal_mul_tenTo {n : Nat} (h : 0 < n) (k : Nat) :
    decimal (n * tenTo k) = decimal n ++ List.replicate k '0' := by
  induction k with
  | zero => rw [tenTo_zero, Nat.mul_one, List.replicate_zero, List.append_nil]
  | succ k ih =>
    rw [tenTo_succ, ← Nat.mul_assoc, decimal_mul_ten (Nat.mul_pos h (tenTo_pos k)), ih,
      List.replicate_succ', List.append_assoc]

theorem ofDecimal_nil : ofDecimal [] = 0 := rfl

theorem ofDecimal_append (as bs : List Char) :
    ofDecimal (as ++ bs) = ofDecimal as * tenTo bs.length + ofDecimal bs := by
  rw [ofDecimal, Nat.ofDigitChars_append, Nat.ofDigitChars_eq_ofDigitChars_zero, tenTo_eq,
    Nat.mul_comm]
  rfl

theorem ofDecimal_replicate_zero (n : Nat) : ofDecimal (List.replicate n '0') = 0 := by
  rw [ofDecimal, Nat.ofDigitChars_replicate_zero, Nat.mul_zero]

theorem ofDecimal_zeros_append (n : Nat) (ds : List Char) :
    ofDecimal (List.replicate n '0' ++ ds) = ofDecimal ds := by
  rw [ofDecimal_append, ofDecimal_replicate_zero, Nat.zero_mul, Nat.zero_add]

theorem ofDecimal_append_zeros (ds : List Char) (n : Nat) :
    ofDecimal (ds ++ List.replicate n '0') = ofDecimal ds * tenTo n := by
  rw [ofDecimal_append, ofDecimal_replicate_zero, List.length_replicate, Nat.add_zero]

theorem toNat_sub_lt_ten {c : Char} (h : c.isDigit = true) : c.toNat - 48 < 10 := by
  have h57 : c.toNat ≤ 57 := (Char.isDigit_iff_toNat.mp h).2
  omega

theorem ofDecimal_singleton (c : Char) : ofDecimal [c] = c.toNat - 48 := by
  show 10 * 0 + (c.toNat - 48) = _
  omega

theorem ofDecimal_cons (c : Char) (cs : List Char) :
    ofDecimal (c :: cs) = (c.toNat - 48) * tenTo cs.length + ofDecimal cs := by
  rw [← List.singleton_append, ofDecimal_append, ofDecimal_singleton]

theorem ofDecimal_lt {ds : List Char} (h : ∀ c ∈ ds, c.isDigit = true) :
    ofDecimal ds < tenTo ds.length := by
  induction ds with
  | nil => exact Nat.one_pos
  | cons c ds ih =>
    obtain ⟨hc, hds⟩ := List.forall_mem_cons.mp h
    have hdigit := Nat.mul_le_mul_right (tenTo ds.length) (Nat.le_of_lt_succ (toNat_sub_lt_ten hc))
    have hrest := ih hds
    rw [ofDecimal_cons, List.length_cons, tenTo_succ]
    omega

/-! ## padded numbers -/

theorem padded_eq (width n : Nat) :
    padded width n = List.replicate (width - (decimal n).length) '0' ++ decimal n := rfl

theorem isDigit_of_mem_padded {width n : Nat} {c : Char} (h : c ∈ padded width n) :
    c.isDigit = true := by
  rw [padded_eq, List.mem_append] at h
  rcases h with h | h
  · rw [List.eq_of_mem_replicate h]
    rfl
  · exact isDigit_of_mem_decimal h

theorem ofDecimal_padded (width n : Nat) : ofDecimal (padded width n) = n := by
  rw [padded_eq, ofDecimal_zeros_append, ofDecimal_decimal]

theorem length_padded {width n : Nat} (hw : 0 < width) (h : n < tenTo width) :
    (padded width n).length = width := by
  have := (length_decimal_le_iff hw).mpr h
  rw [padded_eq, List.length_append, List.length_replicate]
  omega

theorem width_le_length_padded (width n : Nat) : width ≤ (padded width n).length := by
  rw [padded_eq, List.length_append, List.length_replicate]
  omega

/-! ## hexadecimal digits -/

theorem length_hex (width n : Nat) : (hex width n).length = width := by
  induction width generalizing n with
  | zero => rfl
  | succ width ih => rw [hex, List.length_append, ih]; rfl

theorem hexValue?_digitChar {d : Nat} (h : d < 16) : hexValue? (Nat.digitChar d) = some d := by
  have : ∀ d < 16, hexValue? (Nat.digitChar d) = some d := by decide
  exact this d h

theorem isHex_of_mem_hex {width n : Nat} {c : Char} (h : c ∈ hex width n) : isHex c = true := by
  induction width generalizing n with
  | zero => exact nomatch h
  | succ width ih =>
    rw [hex, List.mem_append, List.mem_singleton] at h
    rcases h with h | rfl
    · exact ih h
    · rw [isHex, hexValue?_digitChar (Nat.mod_lt _ (by omega))]
      rfl

/-- the last digits of a number spell what is left of it when the others are cut off -/
theorem ofHex_hex (width n : Nat) : ofHex (hex width n) = n % 16 ^ width := by
  induction width generalizing n with
  | zero => rw [Nat.pow_zero, Nat.mod_one]; rfl
  | succ width ih =>
    have hd := hexValue?_digitChar (Nat.mod_lt n (show 0 < 16 by omega))
    rw [hex, ofHex, List.foldl_append]
    show 16 * ofHex (hex width (n / 16)) + (hexValue? (Nat.digitChar (n % 16))).getD 0 = _
    rw [ih, hd, Option.getD_some, Nat.pow_succ, Nat.mul_comm (16 ^ width), Nat.mod_mul]
    omega

end SavedFilter.Text
