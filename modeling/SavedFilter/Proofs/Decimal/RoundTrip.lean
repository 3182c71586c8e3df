import SavedFilter.Decimal.Reader
import SavedFilter.Proofs.Text.Digits

/-!
# Decimals that are read back

The text of a decimal is read as that decimal, digit by digit: the coefficient never outgrows its
96 bits on the way (`scan_digits`), and the scale is the count of digits behind the point.  Only a
zero loses its sign (`canonical`):

* `read_text`            the text of a decimal is read as its canonical form;
* `mantissa_canonical`   which has the same mantissa and scale.
-/

namespace SavedFilter.Decimal
open Text

/-- the same number, a zero without its sign -/
def canonical (d : Decimal) : Decimal :=
  ⟨d.negative && d.coefficient != 0, d.coefficient, d.scale, d.coefficient_lt, d.scale_le⟩

theorem mantissa_canonical (d : Decimal) : d.canonical.mantissa = d.mantissa := by
  obtain ⟨negative, coefficient, scale, hlt, hle⟩ := d
  cases negative with
  | false => rfl
  | true =>
    rcases Nat.eq_zero_or_pos coefficient with rfl | h
    · rfl
    · simp [canonical, mantissa, h.ne']

def isNegativeZero (d : Decimal) : Bool := d.negative && d.coefficient == 0

theorem canonical_eq_self_iff (d : Decimal) : d.canonical = d ↔ d.isNegativeZero = false := by
  obtain ⟨negative, coefficient, scale, hlt, hle⟩ := d
  rw [canonical, mk.injEq, isNegativeZero]
  cases negative with
  | false => simp
  | true => by_cases h : coefficient = 0 <;> simp [h]

section
variable {negative behindPoint started : Bool} {coefficient scale : Nat}

theorem scan_digit {c : Char} (cs : List Char) (hc : c.isDigit = true)
    (hs : behindPoint = true → scale < maxScale)
    (hl : 10 * coefficient + (c.toNat - 48) < coefficientLimit) :
    scan negative behindPoint started coefficient scale (c :: cs) =
      scan negative behindPoint true (10 * coefficient + (c.toNat - 48))
        (if behindPoint then scale + 1 else scale) cs := by
  have hfull : ¬ ((behindPoint && decide (maxScale ≤ scale)) = true) := by
    rw [Bool.and_eq_true, decide_eq_true_iff]
    rintro ⟨hpoint, hfull⟩
    exact absurd hfull (Nat.not_le.mpr (hs hpoint))
  rw [scan, if_neg hfull, if_pos hc, if_pos hl]

/-- Digits go into the coefficient one by one.  It only grows, so it fits as long as the last one
does. -/
theorem scan_digits {ds : List Char} (hd : ∀ c ∈ ds, c.isDigit = true) (rest : List Char)
    (hs : behindPoint = true → scale + ds.length ≤ maxScale)
    (hl : coefficient * tenTo ds.length + ofDecimal ds < coefficientLimit) :
    scan negative behindPoint started coefficient scale (ds ++ rest) =
      scan negative behindPoint (started || !ds.isEmpty)
        (coefficient * tenTo ds.length + ofDecimal ds)
        (if behindPoint then scale + ds.length else scale) rest := by
  induction ds generalizing coefficient scale started with
  | nil => simp [tenTo_zero, ofDecimal_nil]
  | cons c ds ih =>
    have hvalue : coefficient * tenTo (c :: ds).length + ofDecimal (c :: ds) =
        (10 * coefficient + (c.toNat - 48)) * tenTo ds.length + ofDecimal ds := by
      rw [ofDecimal_cons, List.length_cons, tenTo_succ]
      ring
    rw [hvalue] at hl ⊢
    have hten := tenTo_pos ds.length
    have hlonger : 10 * coefficient + (c.toNat - 48) < coefficientLimit :=
      lt_of_le_of_lt (le_trans (Nat.le_mul_of_pos_right _ hten) (Nat.le_add_right _ _)) hl
    rw [List.length_cons] at hs ⊢
    have hroom : behindPoint = true → scale < maxScale := by
      intro h
      have := hs h
      omega
    have hmore : behindPoint = true →
        (if behindPoint then scale + 1 else scale) + ds.length ≤ maxScale := by
      intro h
      have := hs h
      rw [if_pos h]
      omega
    rw [List.cons_append, scan_digit _ (hd c (List.mem_cons_self ..)) hroom hlonger,
      ih (fun c' hc' => hd c' (List.mem_cons_of_mem _ hc')) hmore hl]
    cases behindPoint with
    | false => simp
    | true => simp [Nat.add_assoc, Nat.add_comm 1]

theorem scan_whole {ds : List Char} (hd : ∀ c ∈ ds, c.isDigit = true) (hne : ds ≠ [])
    (rest : List Char) (hl : ofDecimal ds < coefficientLimit) :
    scan negative false false 0 0 (ds ++ rest) =
      scan negative false true (ofDecimal ds) 0 rest := by
  rw [scan_digits hd rest (fun h => absurd h Bool.false_ne_true)
    (by rwa [Nat.zero_mul, Nat.zero_add]), Nat.zero_mul, Nat.zero_add, Bool.false_or,
    List.isEmpty_eq_false_iff.mpr hne]
  rfl

theorem scan_decimals {ds : List Char} (hd : ∀ c ∈ ds, c.isDigit = true)
    (hs : ds.length ≤ maxScale)
    (hl : coefficient * tenTo ds.length + ofDecimal ds < coefficientLimit) :
    scan negative false true coefficient 0 ('.' :: ds) =
      finish negative (coefficient * tenTo ds.length + ofDecimal ds) ds.length := by
  have hpoint : scan negative false true coefficient 0 ('.' :: ds) =
      scan negative true true coefficient 0 (ds ++ []) := by
    rw [List.append_nil, scan]
    rfl
  rw [hpoint, scan_digits hd [] (fun _ => by rwa [Nat.zero_add]) hl, if_pos rfl, Nat.zero_add,
    Bool.true_or]
  rfl

end

theorem finish_eq (negative : Bool) (d : Decimal) :
    finish negative d.coefficient d.scale = .ok ⟨negative && d.coefficient != 0, d.coefficient,
      d.scale, d.coefficient_lt, d.scale_le⟩ :=
  dif_pos ⟨d.coefficient_lt, d.scale_le⟩

theorem scan_point (negative : Bool) (d : Decimal) :
    scan negative false false 0 0 (point d.scale (padded (d.scale + 1) d.coefficient)) =
      .ok ⟨negative && d.coefficient != 0, d.coefficient, d.scale, d.coefficient_lt,
        d.scale_le⟩ := by
  have hdigits : ∀ c ∈ padded (d.scale + 1) d.coefficient, c.isDigit = true :=
    fun _ => isDigit_of_mem_padded
  have hvalue := ofDecimal_padded (d.scale + 1) d.coefficient
  have hlen := width_le_length_padded (d.scale + 1) d.coefficient
  generalize padded (d.scale + 1) d.coefficient = ds at hdigits hvalue hlen
  have hlimit := d.coefficient_lt
  rw [← finish_eq]
  by_cases hs : d.scale = 0
  · have hne : ds ≠ [] := List.ne_nil_of_length_pos (by omega)
    rw [hs, point_zero, ← List.append_nil ds, scan_whole hdigits hne [] (hvalue ▸ hlimit), hvalue]
    rfl
  · have hne : ds.take (ds.length - d.scale) ≠ [] :=
      List.ne_nil_of_length_pos (by rw [List.length_take]; omega)
    have hdrop : (ds.drop (ds.length - d.scale)).length = d.scale := by
      rw [List.length_drop]
      omega
    have hsplit : ofDecimal (ds.take (ds.length - d.scale)) * tenTo d.scale +
        ofDecimal (ds.drop (ds.length - d.scale)) = d.coefficient := by
      rw [← hvalue]
      conv_rhs => rw [← List.take_append_drop (ds.length - d.scale) ds, ofDecimal_append, hdrop]
    have hwhole : ofDecimal (ds.take (ds.length - d.scale)) < coefficientLimit := by
      have := Nat.le_mul_of_pos_right (ofDecimal (ds.take (ds.length - d.scale)))
        (tenTo_pos d.scale)
      omega
    rw [point, if_neg hs, scan_whole (fun c hc => hdigits c (List.mem_of_mem_take hc)) hne _ hwhole,
      scan_decimals (fun c hc => hdigits c (List.mem_of_mem_drop hc)) (hdrop.trans_le d.scale_le)
        (by rw [hdrop, hsplit]; exact hlimit), hdrop, hsplit]

theorem exists_cons_point (d : Decimal) : ∃ c cs,
    point d.scale (padded (d.scale + 1) d.coefficient) = c :: cs ∧ c.isDigit = true := by
  have hdigits : ∀ c ∈ padded (d.scale + 1) d.coefficient, c.isDigit = true :=
    fun _ => isDigit_of_mem_padded
  have hlen := width_le_length_padded (d.scale + 1) d.coefficient
  cases hp : padded (d.scale + 1) d.coefficient with
  | nil =>
    rw [hp, List.length_nil] at hlen
    omega
  | cons c cs =>
    rw [hp] at hdigits hlen
    refine ⟨c, ?_⟩
    rw [point]
    by_cases hs : d.scale = 0
    · exact ⟨cs, if_pos hs, hdigits c (List.mem_cons_self ..)⟩
    · obtain ⟨k, hk⟩ : ∃ k, (c :: cs).length - d.scale = k + 1 :=
        ⟨(c :: cs).length - d.scale - 1, by omega⟩
      exact ⟨_, by rw [if_neg hs, hk]; rfl, hdigits c (List.mem_cons_self ..)⟩

/-- the text without the sign of a zero is another one -/
theorem text_canonical_eq_iff (d : Decimal) :
    d.canonical.text = d.text ↔ d.isNegativeZero = false := by
  constructor
  case mpr =>
    intro h
    rw [(d.canonical_eq_self_iff).mpr h]
  intro h
  obtain ⟨c, cs, hp, hc⟩ := exists_cons_point d
  by_contra hz
  rw [Bool.not_eq_false, isNegativeZero, Bool.and_eq_true, beq_iff_eq] at hz
  have hnegative : d.canonical.negative = false := by
    show (d.negative && d.coefficient != 0) = false
    rw [hz.2]
    exact Bool.and_false _
  have hsign : d.canonical.text = point d.scale (padded (d.scale + 1) d.coefficient) := by
    rw [text, hnegative]
    rfl
  rw [hsign, hp, text, hz.1, if_pos rfl] at h
  exact ne_of_isDigit hc rfl (List.cons.inj h).1

/-- **The text of a decimal is read as its canonical form.** -/
theorem read_text (d : Decimal) : read d.text = .ok d.canonical := by
  have hplain : readPlain d.text = .ok d.canonical := by
    rw [canonical]
    cases hn : d.negative with
    | true =>
      rw [text, hn]
      exact scan_point true d
    | false =>
      obtain ⟨c, cs, hp, hc⟩ := exists_cons_point d
      have hscan := scan_point false d
      rw [text, hn]
      show readPlain (point d.scale _) = _
      rw [hp] at hscan ⊢
      rw [readPlain, if_neg (ne_of_isDigit hc rfl), if_neg (ne_of_isDigit hc rfl),
        hscan]
  rw [read, hplain]

end SavedFilter.Decimal
