import SavedFilter.Proofs.Json.Numbers

/-!
# Doubles that are read back

A finite double is laid out by its shortest digits, in one of four ways.  Each of them has the same
digits when it is read, up to zeros, and the power of ten that belongs to them (`exists_reads`); so
the double is read back (`number_magnitudeText`).
-/

namespace SavedFilter.Json
open Text Binary64 Reader

/-! ## zeros at either end -/

theorem dropWhile_zeros {ds : List Char} (h : ds.head? ≠ some '0') :
    ds.dropWhile (· == '0') = ds := by
  apply dropWhile_of_stops
  intro c hc
  rw [beq_eq_false_iff_ne]
  rintro rfl
  exact h hc

theorem dropWhile_zeros_append {n : Nat} {ds : List Char} (h : ds.head? ≠ some '0') :
    (List.replicate n '0' ++ ds).dropWhile (· == '0') = ds := by
  rw [List.dropWhile_append_of_pos fun c hc => by rw [List.eq_of_mem_replicate hc]; rfl,
    dropWhile_zeros h]

theorem significant_eq_self {ds : List Char} (h : ds.getLast? ≠ some '0') :
    significant ds = ds := by
  rw [significant, dropWhile_zeros (by rwa [List.head?_reverse]), List.reverse_reverse]

theorem head?_dropWhile_zeros_ne (ds : List Char) :
    (ds.dropWhile (· == '0')).head? ≠ some '0' := by
  intro h
  have := List.head?_dropWhile_not (fun c : Char => c == '0') ds
  rw [h] at this
  exact absurd this (by simp)

theorem getLast?_significant_ne (ds : List Char) : (significant ds).getLast? ≠ some '0' := by
  rw [significant, List.getLast?_reverse]
  exact head?_dropWhile_zeros_ne _

/-- the zeros at the end and what is in front of them -/
theorem significant_append (ds : List Char) :
    significant ds ++ List.replicate (ds.length - (significant ds).length) '0' = ds := by
  have hz : ∃ n, significant ds ++ List.replicate n '0' = ds := by
    refine ⟨(ds.reverse.takeWhile (· == '0')).length, ?_⟩
    rw [significant, ← List.reverse_replicate, ← List.reverse_append, ← List.reverse_inj,
      List.reverse_reverse]
    conv_rhs => rw [← List.takeWhile_append_dropWhile (p := (· == '0')) (l := ds.reverse)]
    congr 1
    refine (List.eq_replicate_iff.mpr ⟨rfl, fun c hc => ?_⟩).symm
    exact beq_iff_eq.mp (List.mem_takeWhile_imp (p := (· == '0')) hc)
  obtain ⟨n, hn⟩ := hz
  have hlen := congrArg List.length hn
  rw [List.length_append, List.length_replicate] at hlen
  rw [show ds.length - (significant ds).length = n by omega, hn]

/-! ## the four layouts -/

/-- digits as they are laid out: at least one, and no zero at either end -/
structure IsShort (ds : List Char) : Prop where
  ne_nil : ds ≠ []
  digits : ∀ c ∈ ds, c.isDigit = true
  head : ds.head? ≠ some '0'
  last : ds.getLast? ≠ some '0'

theorem isPlainPower_ofNat {k : Nat} (hk : k < 16) :
    plainFrom ≤ (k : Int) ∧ (k : Int) < plainBelow := by
  unfold plainFrom plainBelow
  omega

theorem layout_whole {ds : List Char} {k : Nat} (hk : k < 16) (hlk : ds.length ≤ k + 1) :
    layout ds k = ds ++ List.replicate (k + 1 - ds.length) '0' ++ ['.', '0'] :=
  (if_pos (isPlainPower_ofNat hk)).trans (if_pos hlk)

theorem layout_point {ds : List Char} {k : Nat} (hk : k < 16) (hlk : k + 1 < ds.length) :
    layout ds k = ds.take (k + 1) ++ '.' :: ds.drop (k + 1) :=
  (if_pos (isPlainPower_ofNat hk)).trans (if_neg (Nat.not_le.mpr hlk))

theorem layout_small {ds : List Char} {k : Nat} (hk : k < 5) :
    layout ds (Int.negSucc k) = '0' :: '.' :: List.replicate k '0' ++ ds := by
  apply if_pos
  unfold plainFrom plainBelow
  omega

/-- what is read off a layout of digits of which the first stands at the power `k` of ten: these
digits and some zeros -/
structure Reads (ds : List Char) (k : Int) (zeros : Nat) (n : Numeral) : Prop where
  written : n.IsWritten
  text : n.text = layout ds k
  not_plain : n.isPlain = false
  coefficient : n.coefficient = ds ++ List.replicate zeros '0'
  fits : ds.length + zeros ≤ Numeral.maxDigits
  scale : n.scale + zeros = k + 1 - ds.length

theorem isWritten_fraction {negative : Bool} {whole fraction : List Char} (hw : whole ≠ [])
    (hwd : ∀ c ∈ whole, c.isDigit = true) (hz : whole.head? = some '0' → whole = ['0'])
    (hf : fraction ≠ []) (hfd : ∀ c ∈ fraction, c.isDigit = true) :
    (Numeral.mk negative whole (some fraction) none).IsWritten where
  whole_ne := hw
  whole_digits := hwd
  whole_zero := hz
  fraction_ne _ h := Option.some.inj h ▸ hf
  fraction_digits _ h := Option.some.inj h ▸ hfd
  exponent_ne _ h := nomatch h
  exponent_digits _ h := nomatch h

theorem isDigit_of_mem_append_zeros {ds : List Char} (hd : ∀ c ∈ ds, c.isDigit = true) (n : Nat) :
    ∀ c ∈ ds ++ List.replicate n '0', c.isDigit = true := by
  intro c hc
  rcases List.mem_append.mp hc with hc | hc
  · exact hd c hc
  · rw [List.eq_of_mem_replicate hc]
    rfl

section
variable {ds : List Char} (hd : IsShort ds) (hlen : ds.length ≤ Numeral.maxDigits)
  (negative : Bool)
include hd

theorem reads_whole {k : Nat} (hk : k < 16) (hlk : ds.length ≤ k + 1) :
    Reads ds k (k + 1 - ds.length)
      ⟨negative, ds ++ List.replicate (k + 1 - ds.length) '0', some ['0'], none⟩ := by
  have hhead : (ds ++ List.replicate (k + 1 - ds.length) '0').head? ≠ some '0' := by
    rw [List.head?_append_of_ne_nil _ hd.ne_nil]
    exact hd.head
  constructor
  case written =>
    exact isWritten_fraction (List.append_ne_nil_of_left_ne_nil hd.ne_nil _)
      (isDigit_of_mem_append_zeros hd.digits _) (fun h => absurd h hhead) (List.cons_ne_nil _ _)
      (List.forall_mem_singleton.mpr rfl)
  case text => exact (layout_whole hk hlk).symm
  case not_plain => rfl
  case coefficient =>
    have hnil : significant ['0'] = [] := rfl
    show (_ ++ significant ['0']).dropWhile _ = _
    rw [hnil, List.append_nil, dropWhile_zeros hhead]
  case fits =>
    unfold Numeral.maxDigits
    omega
  case scale =>
    show (0 : Int) - 0 + _ = _
    omega

include hlen

theorem reads_point {k : Nat} (hk : k < 16) (hlk : k + 1 < ds.length) :
    Reads ds k 0 ⟨negative, ds.take (k + 1), some (ds.drop (k + 1)), none⟩ := by
  have hhead : (ds.take (k + 1)).head? ≠ some '0' := by
    rw [List.head?_take, if_neg (Nat.succ_ne_zero k)]
    exact hd.head
  have hlast : (ds.drop (k + 1)).getLast? ≠ some '0' := by
    rw [List.getLast?_drop, if_neg (by omega)]
    exact hd.last
  have htake : ds.take (k + 1) ≠ [] := by
    intro h
    exact hd.ne_nil (by simpa using h)
  have hdrop : ds.drop (k + 1) ≠ [] := List.ne_nil_of_length_pos (by rw [List.length_drop]; omega)
  constructor
  case written =>
    exact isWritten_fraction htake (fun c hc => hd.digits c (List.mem_of_mem_take hc))
      (fun h => absurd h hhead) hdrop fun c hc => hd.digits c (List.mem_of_mem_drop hc)
  case text =>
    rw [Numeral.text, Numeral.exponentText, List.append_nil]
    exact (layout_point hk hlk).symm
  case not_plain => rfl
  case coefficient =>
    show (ds.take (k + 1) ++ significant (ds.drop (k + 1))).dropWhile _ = _
    rw [significant_eq_self hlast, List.take_append_drop, dropWhile_zeros hd.head,
      List.replicate_zero, List.append_nil]
  case fits => exact hlen
  case scale =>
    show (0 : Int) - (significant (ds.drop (k + 1))).length + (0 : Nat) = _
    rw [significant_eq_self hlast, List.length_drop]
    omega

theorem reads_small {k : Nat} (hk : k < 5) :
    Reads ds (Int.negSucc k) 0 ⟨negative, ['0'], some (List.replicate k '0' ++ ds), none⟩ := by
  have hlast : (List.replicate k '0' ++ ds).getLast? ≠ some '0' := by
    rw [List.getLast?_append_of_ne_nil _ hd.ne_nil]
    exact hd.last
  have hdigits : ∀ c ∈ List.replicate k '0' ++ ds, c.isDigit = true := by
    intro c hc
    rcases List.mem_append.mp hc with hc | hc
    · rw [List.eq_of_mem_replicate hc]
      rfl
    · exact hd.digits c hc
  constructor
  case written =>
    exact isWritten_fraction (List.cons_ne_nil _ _) (List.forall_mem_singleton.mpr rfl)
      (fun _ => rfl) (List.append_ne_nil_of_right_ne_nil _ hd.ne_nil) hdigits
  case text =>
    rw [Numeral.text, Numeral.exponentText, List.append_nil]
    exact (layout_small hk).symm
  case not_plain => rfl
  case coefficient =>
    show (['0'] ++ significant (List.replicate k '0' ++ ds)).dropWhile _ = _
    rw [significant_eq_self hlast, List.replicate_zero, List.append_nil]
    exact dropWhile_zeros_append (n := k + 1) hd.head
  case fits => exact hlen
  case scale =>
    show (0 : Int) - (significant (List.replicate k '0' ++ ds)).length + (0 : Nat) = _
    rw [significant_eq_self hlast, List.length_append, List.length_replicate]
    omega

end

/-! ## exponents -/

def behindPoint : List Char → Option (List Char)
  | [] => none
  | d :: ds => some (d :: ds)

/-- the number with the digits `d :: ds`, one of them in front of the point, and an exponent -/
def withExponent (negative : Bool) (d : Char) (ds : List Char) (k : Int) : Numeral :=
  ⟨negative, [d], behindPoint ds, some (decide (k < 0), decimal k.natAbs)⟩

theorem power_withExponent (negative : Bool) (d : Char) (ds : List Char) (k : Int) :
    (withExponent negative d ds k).power = k := by
  rw [withExponent, Numeral.power]
  by_cases h : k < 0
  · simp only [h, decide_true, ofDecimal_decimal]
    omega
  · simp only [h, decide_false, ofDecimal_decimal]
    omega

theorem text_withExponent (negative : Bool) (d : Char) (ds : List Char) {k : Int}
    (hk : ¬ (plainFrom ≤ k ∧ k < plainBelow)) :
    (withExponent negative d ds k).text = layout (d :: ds) k := by
  refine Eq.trans ?_ (if_neg hk).symm
  cases ds <;> by_cases h : k < 0 <;>
    simp [withExponent, behindPoint, Numeral.text, Numeral.fractionText, Numeral.exponentText, h]

section
variable {d : Char} {ds : List Char} (hd : IsShort (d :: ds))
include hd

theorem significant_behindPoint : significant ((behindPoint ds).getD []) = ds := by
  cases ds with
  | nil => rfl
  | cons d' ds =>
    apply significant_eq_self
    have := hd.last
    rwa [List.getLast?_cons_cons] at this

theorem isWritten_withExponent (negative : Bool) (k : Int) :
    (withExponent negative d ds k).IsWritten := by
  constructor
  case whole_ne => exact List.cons_ne_nil _ _
  case whole_digits =>
    intro c hc
    exact hd.digits c (List.mem_singleton.mp hc ▸ List.mem_cons_self ..)
  case whole_zero => exact fun h => absurd h hd.head
  case fraction_ne =>
    intro fs h
    cases ds with
    | nil => exact nomatch h
    | cons d' ds =>
      obtain rfl := Option.some.inj h
      exact List.cons_ne_nil _ _
  case fraction_digits =>
    intro fs h
    cases ds with
    | nil => exact nomatch h
    | cons d' ds =>
      obtain rfl := Option.some.inj h
      intro c hc
      exact hd.digits c (List.mem_cons_of_mem _ hc)
  case exponent_ne =>
    rintro e ⟨⟩
    exact decimal_ne_nil _
  case exponent_digits =>
    rintro e ⟨⟩ c hc
    exact isDigit_of_mem_decimal hc

theorem reads_withExponent (hlen : (d :: ds).length ≤ Numeral.maxDigits) (negative : Bool) {k : Int}
    (hk : ¬ (plainFrom ≤ k ∧ k < plainBelow)) :
    Reads (d :: ds) k 0 (withExponent negative d ds k) := by
  constructor
  case written => exact isWritten_withExponent hd negative k
  case text => exact text_withExponent negative d ds hk
  case not_plain => exact Bool.and_false _
  case coefficient =>
    show ([d] ++ significant ((behindPoint ds).getD [])).dropWhile _ = _
    rw [significant_behindPoint hd, List.replicate_zero, List.append_nil]
    exact dropWhile_zeros hd.head
  case fits => exact hlen
  case scale =>
    rw [Numeral.scale, power_withExponent]
    show k - (significant ((behindPoint ds).getD [])).length + (0 : Nat) = _
    rw [significant_behindPoint hd, List.length_cons]
    omega

end

/-- every layout is read as its digits -/
theorem exists_reads {ds : List Char} (hd : IsShort ds) (hlen : ds.length ≤ Numeral.maxDigits)
    (negative : Bool) (k : Int) : ∃ zeros n, n.negative = negative ∧ Reads ds k zeros n := by
  by_cases hk : plainFrom ≤ k ∧ k < plainBelow
  · unfold plainFrom plainBelow at hk
    cases k with
    | ofNat k =>
      have hk' : k < 16 := Int.ofNat_lt.mp hk.2
      rcases Nat.lt_or_ge (k + 1) ds.length with hlk | hlk
      · exact ⟨_, _, rfl, reads_point hd hlen negative hk' hlk⟩
      · exact ⟨_, _, rfl, reads_whole hd negative hk' hlk⟩
    | negSucc k => exact ⟨_, _, rfl, reads_small hd hlen negative (by omega)⟩
  · obtain ⟨d, ds, rfl⟩ := List.exists_cons_of_ne_nil hd.ne_nil
    exact ⟨_, _, rfl, reads_withExponent hd hlen negative hk⟩

/-! ## doubles -/

theorem isShort_significant {n : Nat} (h : 0 < n) : IsShort (significant (decimal n)) := by
  have hsplit := significant_append (decimal n)
  have hne : significant (decimal n) ≠ [] := by
    intro hnil
    rw [hnil, List.nil_append, List.length_nil, Nat.sub_zero] at hsplit
    have := length_decimal_pos n
    apply head?_decimal_ne h
    rw [← hsplit, List.head?_replicate, if_neg this.ne']
  constructor
  case ne_nil => exact hne
  case digits =>
    intro c hc
    apply isDigit_of_mem_decimal (n := n)
    rw [← hsplit]
    exact List.mem_append_left _ hc
  case head =>
    rw [← List.head?_append_of_ne_nil _ hne, hsplit]
    exact head?_decimal_ne h
  case last => exact getLast?_significant_ne _

theorem ofDecimal_significant_mul (n : Nat) :
    ofDecimal (significant (decimal n)) *
      tenTo ((decimal n).length - (significant (decimal n)).length) = n := by
  rw [← ofDecimal_append_zeros, significant_append, ofDecimal_decimal]

section
variable {b : Nat} (h0 : 0 < b) (h : b < infinite)
include h0

theorem magnitudeText_of_pos : magnitudeText b =
    layout (significant (decimal (shortest b).digits))
      ((shortest b).exponent + (decimal (shortest b).digits).length - 1) :=
  if_neg h0.ne'

include h

theorem magnitudeOf_significant {ds : List Char} (hds : decimal (shortest b).digits = ds) :
    magnitudeOf (ofDecimal (significant ds))
      ((shortest b).exponent + (ds.length - (significant ds).length : Nat)) = b := by
  have hmul := ofDecimal_significant_mul (shortest b).digits
  rw [hds] at hmul
  have hpos : 0 < ofDecimal (significant ds) := by
    apply Nat.pos_of_mul_pos_right (b := tenTo (ds.length - (significant ds).length))
    rw [hmul]
    exact shortest_digits_pos h0 h
  have hb := magnitudeOf_shortest h0 h
  rw [magnitudeOf_add hpos (by rw [hmul, hb]; exact h), hmul, hb]

end

/-- the double whose digits are laid out is read back -/
theorem Reads.double? {ds : List Char} {k : Int} {zeros b : Nat} {n : Numeral}
    (hr : Reads ds k zeros n) (hb : magnitudeOf (ofDecimal ds) (k + 1 - ds.length) = b)
    (hpos : 0 < ofDecimal ds) (h : b < infinite) :
    n.double? = some (ofMagnitude n.negative b) := by
  have hcoef : n.coefficient.length ≤ Numeral.maxDigits := by
    rw [hr.coefficient, List.length_append, List.length_replicate]
    exact hr.fits
  have hmagnitude : magnitudeOf (ofDecimal n.coefficient) n.scale = b := by
    rw [hr.coefficient, ofDecimal_append_zeros,
      magnitudeOf_mul_tenTo hpos (by rw [hr.scale, hb]; exact h), hr.scale, hb]
  rw [Numeral.double?, if_pos hcoef, ofScientific?, hmagnitude, if_pos h]

theorem Reads.value? {ds : List Char} {k : Int} {zeros : Nat} {n : Numeral} {x : Binary64}
    (hr : Reads ds k zeros n) (h : n.double? = some x) : n.value? = some (.double x) := by
  have hint : n.int? = none := by
    rw [Numeral.int?, hr.not_plain]
    rfl
  rw [Numeral.value?, hint, h]
  rfl

/-- **A finite double is read back**, whatever stands behind it. -/
theorem number_magnitudeText {b : Nat} (h : b < infinite) (negative : Bool) {rest : List Char}
    (hrest : Stops continuesNumber rest) :
    number negative (magnitudeText b ++ rest) = .ok (.double (ofMagnitude negative b), rest) := by
  rcases Nat.eq_zero_or_pos b with rfl | h0
  · have hdigit : ∀ c ∈ ['0'], c.isDigit = true := List.forall_mem_singleton.mpr rfl
    have hne : ['0'] ≠ [] := List.cons_ne_nil _ _
    exact number_text (n := ⟨negative, ['0'], some ['0'], none⟩)
      (isWritten_fraction hne hdigit (fun _ => rfl) hne hdigit) rfl hrest
  · have hdigits := shortest_digits_pos h0 h
    have hshort := isShort_significant hdigits
    rw [magnitudeText_of_pos h0]
    generalize hds : decimal (shortest b).digits = ds at hshort
    have hle := length_significant_le ds
    have hb := magnitudeOf_significant h0 h hds
    obtain ⟨zeros, n, rfl, hr⟩ := exists_reads hshort
      (hds ▸ length_significant_shortest h0 h) negative ((shortest b).exponent + ds.length - 1)
    rw [← hr.text]
    refine number_text hr.written (hr.value? (hr.double? (Eq.trans ?_ hb) ?_ h)) hrest
    · congr 1
      omega
    · apply Nat.pos_of_ne_zero
      intro hz
      rw [hz, magnitudeOf, if_pos rfl] at hb
      omega

end SavedFilter.Json
