import SavedFilter.Calendar.Reader
import SavedFilter.Proofs.Text.Digits
import SavedFilter.Proofs.Text.Runs

/-!
# Dates and times that are read back

Every part of a date or a time is read back in front of whatever follows it, as long as its digits
end there:

* `dateFields_text`    year, month and day, also of a year with a sign;
* `clock_text`         a time of day with the digits of its fraction, and a leap second;
* `split_text`         the offset begins at the last sign, the date may have signs before that.

So `read` takes the text of a `Date`, a `Time`, a `DateTime` and an `OffsetDateTime` back to it.
-/

namespace SavedFilter.Calendar
open Text Reader

/-! ## digits -/

section
variable {ds rest : List Char}

theorem stops_take {p : Char → Bool} (h : Stops p rest) (k : Nat) : Stops p (rest.take k) := by
  intro c hc
  rw [List.head?_take] at hc
  split at hc
  · exact nomatch hc
  · exact h c hc

theorem not_isBlank_of_isDigit {c : Char} (h : c.isDigit = true) : isBlank c = false := by
  have h1 : 48 ≤ c.toNat := (Char.isDigit_iff_toNat.mp h).1
  have h2 : c.toNat ≤ 57 := (Char.isDigit_iff_toNat.mp h).2
  simp only [isBlank, Bool.or_eq_false_iff, Bool.and_eq_false_iff, decide_eq_false_iff_not,
    beq_eq_false_iff_ne]
  omega

theorem trimStart_digits (hne : ds ≠ []) (hd : ∀ c ∈ ds, c.isDigit = true) :
    trimStart (ds ++ rest) = ds ++ rest := by
  obtain ⟨c, cs, rfl⟩ := List.exists_cons_of_ne_nil hne
  exact trimStart_cons_of_not_isBlank _ (not_isBlank_of_isDigit (hd c (List.mem_cons_self ..)))

theorem digits_run {width : Nat} (hne : ds ≠ []) (hd : ∀ c ∈ ds, c.isDigit = true)
    (hw : ds.length ≤ width) (h : Stops Char.isDigit (rest.take (width - ds.length))) :
    digits width (ds ++ rest) = .ok (ds, rest) := by
  have htake : ((ds ++ rest).take width).takeWhile Char.isDigit = ds := by
    rw [List.take_append, List.take_of_length_le hw, takeWhile_run hd h]
  rw [digits, htake]
  cases ds with
  | nil => exact absurd rfl hne
  | cons c ds =>
    show Except.ok (c :: ds, ((c :: ds) ++ rest).drop (c :: ds).length) = _
    rw [List.drop_left]

end

section
variable {width n : Nat} {rest : List Char}

theorem padded_ne_nil (hw : 0 < width) (n : Nat) : padded width n ≠ [] :=
  List.ne_nil_of_length_pos (lt_of_lt_of_le hw (width_le_length_padded width n))

/-- a number that fills its place is read whatever follows it -/
theorem digits_padded {k : Nat} (hw : 0 < width) (hn : n < tenTo width) (hk : width ≤ k)
    (h : Stops Char.isDigit (rest.take (k - width))) :
    digits k (padded width n ++ rest) = .ok (padded width n, rest) := by
  have hlen := length_padded hw hn
  exact digits_run (padded_ne_nil hw n) (fun _ => isDigit_of_mem_padded) (by rwa [hlen])
    (by rwa [hlen])

theorem trimStart_padded (hw : 0 < width) : trimStart (padded width n ++ rest) =
    padded width n ++ rest :=
  trimStart_digits (padded_ne_nil hw n) fun _ => isDigit_of_mem_padded

theorem literal_cons (l : Char) (cs : List Char) : literal l (l :: cs) = .ok cs := if_pos rfl

theorem field_padded {low high : Nat} (hl : low ≤ n) (hh : n ≤ high) (hn : n < 100) :
    field low high (padded 2 n ++ rest) = .ok (n, rest) := by
  have hdigits : digits 2 (padded 2 n ++ rest) = .ok (padded 2 n, rest) :=
    digits_padded (by omega) hn le_rfl stops_nil
  rw [field, trimStart_padded (by omega), hdigits]
  show (if low ≤ ofDecimal (padded 2 n) ∧ ofDecimal (padded 2 n) ≤ high then _ else _) = _
  rw [ofDecimal_padded, if_pos ⟨hl, hh⟩]

end

/-! ## dates -/

section
variable {y : Int} {rest : List Char}

theorem year_minus {cs ds : List Char} (h : digits cs.length cs = .ok (ds, rest)) :
    year ('-' :: cs) = checkYear (-(ofDecimal ds : Int)) rest := by
  simp only [year, trimStart_cons_of_not_isBlank cs (c := '-') rfl, h, bind, Except.bind]

theorem year_plus {cs ds : List Char} (h : digits cs.length cs = .ok (ds, rest)) :
    year ('+' :: cs) = checkYear (ofDecimal ds) rest := by
  simp only [year, trimStart_cons_of_not_isBlank cs (c := '+') rfl, h, bind, Except.bind]

theorem year_digits {cs ds : List Char} (hne : cs ≠ []) (hd : ∀ c ∈ cs, c.isDigit = true)
    (h : digits 4 (cs ++ rest) = .ok (ds, rest)) :
    year (cs ++ rest) = checkYear (ofDecimal ds) rest := by
  obtain ⟨c, cs, rfl⟩ := List.exists_cons_of_ne_nil hne
  have hc := hd c (List.mem_cons_self ..)
  rw [year, trimStart_digits hne hd]
  split
  · next he => exact absurd ((List.cons.inj he).1 ▸ hc) (by decide)
  · next he => exact absurd ((List.cons.inj he).1 ▸ hc) (by decide)
  · simp only [h, bind, Except.bind]

theorem checkYear_ok (hf : firstYear ≤ y) (hl : y ≤ lastYear) (cs : List Char) :
    checkYear y cs = .ok (y, cs) := by
  unfold firstYear at hf
  unfold lastYear at hl
  exact if_pos ⟨by omega, by omega⟩

theorem digits_year (n : Nat) (rest : List Char) :
    digits (padded 4 n ++ '-' :: rest).length (padded 4 n ++ '-' :: rest) =
      .ok (padded 4 n, '-' :: rest) :=
  digits_run (padded_ne_nil (by omega) n) (fun _ => isDigit_of_mem_padded)
    (by rw [List.length_append]; omega) (stops_take (stops_cons _ rfl) _)

theorem year_yearText (hf : firstYear ≤ y) (hl : y ≤ lastYear) (rest : List Char) :
    year (Date.yearText y ++ '-' :: rest) = .ok (y, '-' :: rest) := by
  have hdigits := digits_year y.natAbs rest
  rw [Date.yearText]
  by_cases h : 0 ≤ y ∧ y ≤ 9999
  · have hlt : y.natAbs < tenTo 4 := by
      rw [tenTo_eq]
      omega
    rw [if_pos h, year_digits (padded_ne_nil (by omega) _) (fun _ => isDigit_of_mem_padded)
      (digits_padded (by omega) hlt le_rfl stops_nil), ofDecimal_padded,
      Int.natAbs_of_nonneg h.1, checkYear_ok hf hl]
  · rw [if_neg h]
    by_cases hneg : y < 0
    · have hvalue : -(y.natAbs : Int) = y := by omega
      rw [if_pos hneg, List.cons_append, year_minus hdigits, ofDecimal_padded, hvalue,
        checkYear_ok hf hl]
    · have hvalue : (y.natAbs : Int) = y := by omega
      rw [if_neg hneg, List.cons_append, year_plus hdigits, ofDecimal_padded, hvalue,
        checkYear_ok hf hl]

end

theorem daysInMonth_le (year : Int) (month : Nat) : daysInMonth year month ≤ 31 := by
  unfold daysInMonth
  split <;> first | omega | (split <;> omega)

/-- only the months from 1 to 12 have days -/
theorem month_of_isDate {year : Int} {month day : Nat} (h : IsDate year month day) :
    1 ≤ month ∧ month ≤ 12 := by
  obtain ⟨-, -, h1, h2⟩ := h
  unfold daysInMonth at h2
  split at h2 <;> omega

theorem dateFields_text (d : Date) (rest : List Char) :
    dateFields (d.text ++ rest) = .ok ((d.year, d.month, d.day), rest) := by
  obtain ⟨hf, hl, hday, hlast⟩ := d.valid
  obtain ⟨hm1, hm12⟩ := month_of_isDate d.valid
  have h31 := daysInMonth_le d.year d.month
  have htext : d.text ++ rest = Date.yearText d.year ++ '-' :: (padded 2 d.month ++
      '-' :: (padded 2 d.day ++ rest)) := by
    simp only [Date.text, List.append_assoc, List.cons_append]
  rw [htext]
  simp only [dateFields, year_yearText hf hl, literal_cons, bind, Except.bind,
    field_padded hm1 hm12 (show d.month < 100 by omega),
    field_padded hday (le_trans hlast h31) (show d.day < 100 by omega)]

/-- **The text of a date is read as that date.** -/
theorem Date.read_text (d : Date) : Date.read d.text = .ok d := by
  have hfields := dateFields_text d []
  rw [List.append_nil] at hfields
  simp only [Date.read, hfields, bind, Except.bind]
  show dateOf (d.year, d.month, d.day) = _
  rw [dateOf, Date.of?_eq_some d.valid]

/-! ## times -/

/-- a character with which a time could go on -/
def continuesTime (c : Char) : Bool := c.isDigit || c == '.'

section
variable {rest : List Char} (h : Stops continuesTime rest)
include h

theorem stops_isDigit : Stops Char.isDigit rest := by
  intro c hc
  exact (Bool.or_eq_false_iff.mp (h c hc)).1

theorem fraction_none : fraction rest = .ok (0, rest) := by
  unfold fraction
  split
  · exact absurd (h '.' rfl) (by decide)
  · rfl

/-- a fraction of some of the nine digits -/
theorem fraction_padded {width n : Nat} (k : Nat) (hw : 0 < width) (hk : width + k = 9)
    (hn : n < tenTo width) :
    fraction ('.' :: (padded width n ++ rest)) = .ok (n * tenTo k, rest) := by
  have hdigits := digits_padded (k := 9) hw hn (by omega) (stops_take (stops_isDigit h) _)
  have hdrop := dropWhile_of_stops (stops_isDigit h)
  have hrest : 9 - width = k := by omega
  simp only [fraction, hdigits, hdrop, bind, Except.bind, ofDecimal_padded, length_padded hw hn,
    hrest]

/-- a fraction is written with as many digits as are enough -/
theorem fraction_fractionText {nano : Nat} (hn : nano < nanosPerSecond) :
    fraction (Time.fractionText nano ++ rest) = .ok (nano, rest) := by
  have hlimit : nanosPerSecond = 1000000000 := rfl
  have h3 : tenTo 3 = 1000 := rfl
  have h6 : tenTo 6 = 1000000 := rfl
  have h9 : tenTo 9 = 1000000000 := rfl
  unfold Time.fractionText
  split_ifs with hz hmilli hmicro
  · rw [hz, List.nil_append, fraction_none h]
  · have hvalue : nano / 1000000 * tenTo 6 = nano := by rw [h6]; omega
    rw [List.cons_append, fraction_padded h 6 (by omega) rfl (by omega), hvalue]
  · have hvalue : nano / 1000 * tenTo 3 = nano := by rw [h3]; omega
    rw [List.cons_append, fraction_padded h 3 (by omega) rfl (by omega), hvalue]
  · rw [List.cons_append, fraction_padded h 0 (by omega) rfl (by omega), tenTo_zero, Nat.mul_one]

/-- a time is read back, a leap second too -/
theorem clock_text (t : Time) : clock (t.text ++ rest) = .ok (t, rest) := by
  obtain ⟨hh, hm, hs, hn⟩ := t.valid
  have htext : t.text ++ rest = padded 2 t.hour ++ ':' :: (padded 2 t.minute ++
      ':' :: (padded 2 t.second ++ (Time.fractionText t.nano ++ rest))) := by
    simp only [Time.text, List.append_assoc, List.cons_append]
  rw [htext]
  simp only [clock, literal_cons, bind, Except.bind, fraction_fractionText h hn,
    field_padded (Nat.zero_le _) (Nat.le_of_lt_succ hh) (show t.hour < 100 by omega),
    field_padded (Nat.zero_le _) (Nat.le_of_lt_succ hm) (show t.minute < 100 by omega),
    field_padded (Nat.zero_le _) hs (show t.second < 100 by omega), Time.of?_eq_some t.valid]

end

/-- **The text of a time is read as that time.** -/
theorem Time.read_text (t : Time) : Time.read t.text = .ok t := by
  have hclock := clock_text stops_nil t
  rw [List.append_nil] at hclock
  simp only [Time.read, hclock, bind, Except.bind]
  rfl

/-- **The text of a date and time is read as that date and time.** -/
theorem DateTime.read_text (d : DateTime) : DateTime.read d.text = .ok d := by
  have hclock := clock_text stops_nil d.time
  rw [List.append_nil] at hclock
  simp only [DateTime.read, DateTime.text, dateFields_text, literal_cons, hclock, bind, Except.bind]
  show (dateOf (d.date.year, d.date.month, d.date.day) >>= _) = _
  rw [dateOf, Date.of?_eq_some d.date.valid]
  rfl

/-! ## offsets -/

namespace OffsetDateTime

theorem splitAtLastSign?_append (before : List Char) {sign : Char} {behind : List Char}
    (hs : isSign sign = true) (hb : ∀ c ∈ behind, isSign c = false) :
    splitAtLastSign? (before ++ sign :: behind) = some (before, sign :: behind) := by
  have hrun : ∀ c ∈ behind.reverse, (!isSign c) = true := by
    intro c hc
    rw [hb c (List.mem_reverse.mp hc)]
    rfl
  have hstop : Stops (!isSign ·) (sign :: before.reverse) := stops_cons _ (by rw [hs]; rfl)
  have hreverse : (before ++ sign :: behind).reverse =
      behind.reverse ++ sign :: before.reverse := by
    rw [List.reverse_append, List.reverse_cons, List.append_assoc, List.singleton_append]
  rw [splitAtLastSign?, hreverse]
  simp only [takeWhile_run hrun hstop, dropWhile_run hrun hstop, List.reverse_reverse]

theorem ne_of_mem_dateText {d : Date} {c : Char} (h : c ∈ d.text) : c ≠ 'T' := by
  have hdigit : ∀ {width n : Nat}, c ∈ padded width n → c ≠ 'T' := by
    intro width n hc
    exact ne_of_isDigit (isDigit_of_mem_padded hc) rfl
  have hyear : c ∈ Date.yearText d.year → c ≠ 'T' := by
    intro hc
    unfold Date.yearText at hc
    split_ifs at hc
    · exact hdigit hc
    · rcases List.mem_cons.mp hc with rfl | hc
      · decide
      · exact hdigit hc
    · rcases List.mem_cons.mp hc with rfl | hc
      · decide
      · exact hdigit hc
  simp only [Date.text, List.mem_append, List.mem_cons] at h
  rcases h with (h | rfl | h) | rfl | h
  · exact hyear h
  · decide
  · exact hdigit h
  · decide
  · exact hdigit h

def signOf (offset : Int) : Char := if offset < 0 then '-' else '+'

def magnitudeText (n : Nat) : List Char :=
  padded 2 (n / 3600) ++ ':' :: padded 2 (n / 60 % 60) ++
    (if n % 60 = 0 then [] else ':' :: padded 2 (n % 60))

theorem offsetText_eq (offset : Int) :
    offsetText offset = signOf offset :: magnitudeText offset.natAbs := by
  rw [offsetText, signOf, magnitudeText]
  rfl

theorem not_isSign_of_mem_magnitudeText {n : Nat} {c : Char} (h : c ∈ magnitudeText n) :
    isSign c = false := by
  have hdigit : ∀ {width n : Nat}, c ∈ padded width n → isSign c = false := by
    intro width n hc
    have hd := isDigit_of_mem_padded hc
    simp only [isSign, Bool.or_eq_false_iff, beq_eq_false_iff_ne]
    exact ⟨ne_of_isDigit hd rfl, ne_of_isDigit hd rfl⟩
  unfold magnitudeText at h
  split_ifs at h <;> simp only [List.mem_append, List.mem_cons, List.not_mem_nil, or_false] at h
  · rcases h with h | rfl | h
    · exact hdigit h
    · decide
    · exact hdigit h
  · rcases h with (h | rfl | h) | rfl | h
    · exact hdigit h
    · decide
    · exact hdigit h
    · decide
    · exact hdigit h

/-- the local date and time and the offset are found again -/
theorem split_text (d : OffsetDateTime) :
    split d.text = .ok (d.moment.text, offsetText d.offset) := by
  have hdate : ∀ c ∈ d.moment.date.text, (c != 'T') = true := by
    intro c hc
    exact bne_iff_ne.mpr (ne_of_mem_dateText hc)
  have hsign : isSign (signOf d.offset) = true := by
    unfold signOf
    split <;> decide
  have htext : d.text = d.moment.date.text ++
      ('T' :: d.moment.time.text ++ signOf d.offset :: magnitudeText d.offset.natAbs) := by
    rw [text, DateTime.text, offsetText_eq, List.append_assoc]
  have hstop : Stops (· != 'T')
      ('T' :: d.moment.time.text ++ signOf d.offset :: magnitudeText d.offset.natAbs) :=
    stops_cons _ rfl
  rw [htext, split, takeWhile_run hdate hstop, dropWhile_run hdate hstop]
  simp only [splitAtLastSign?_append _ hsign fun _ => not_isSign_of_mem_magnitudeText,
    offsetText_eq, DateTime.text]
  rfl

theorem exists_padded_two {n : Nat} (h : n < 100) :
    ∃ a b, padded 2 n = [a, b] ∧ twoDigits? a b = some n := by
  have hlen := length_padded (show 0 < 2 by omega) (show n < tenTo 2 from h)
  have hd : ∀ c ∈ padded 2 n, c.isDigit = true := fun _ => isDigit_of_mem_padded
  have hvalue := ofDecimal_padded 2 n
  obtain ⟨a, b, hab⟩ := List.length_eq_two.mp hlen
  rw [hab] at hd hvalue
  refine ⟨a, b, hab, ?_⟩
  rw [twoDigits?, hd a (List.mem_cons_self ..), hd b (by simp), hvalue]
  rfl

theorem magnitude?_magnitudeText {n : Nat} (h : n < 86400) :
    magnitude? (magnitudeText n) = some n := by
  obtain ⟨h₁, h₂, hhour, hh⟩ := exists_padded_two (show n / 3600 < 100 by omega)
  obtain ⟨m₁, m₂, hminute, hm⟩ := exists_padded_two (show n / 60 % 60 < 100 by omega)
  obtain ⟨s₁, s₂, hsecond, hs⟩ := exists_padded_two (show n % 60 < 100 by omega)
  have hh24 : n / 3600 < 24 := by omega
  have hm60 : n / 60 % 60 < 60 := by omega
  rw [magnitudeText, hhour, hminute, hsecond]
  split_ifs with hz
  · have hvalue : n / 3600 * 3600 + n / 60 % 60 * 60 = n := by omega
    simp [magnitude?, hh, hm, hh24, hm60, hvalue]
  · have hvalue : n / 3600 * 3600 + n / 60 % 60 * 60 + n % 60 = n := by omega
    have hs60 : n % 60 < 60 := by omega
    simp [magnitude?, hh, hm, hs, hh24, hm60, hs60, hvalue]

theorem offset?_offsetText {offset : Int} (hl : -86400 < offset) (hh : offset < 86400) :
    offset? (offsetText offset) = some offset := by
  have hmagnitude := magnitude?_magnitudeText (show offset.natAbs < 86400 by omega)
  rw [offsetText_eq, signOf]
  split_ifs with hneg
  · have hvalue : -(offset.natAbs : Int) = offset := by omega
    rw [offset?, hmagnitude]
    exact congrArg some hvalue
  · have hvalue : (offset.natAbs : Int) = offset := by omega
    rw [offset?, hmagnitude]
    exact congrArg some hvalue

/-- **The text of a date and time with an offset is read as it**, with the offset to the second. -/
theorem read_text (d : OffsetDateTime) : read d.text = .ok d := by
  obtain ⟨hl, hh, -⟩ := d.valid
  simp only [read, split_text, DateTime.read_text, offset?_offsetText hl hh, of?_eq_some d.valid,
    bind, Except.bind, Except.mapError]

end OffsetDateTime
end SavedFilter.Calendar
