import Mathlib.Algebra.Order.Field.Rat
import Mathlib.Data.Rat.Floor
import Mathlib.Tactic.FieldSimp
import Mathlib.Tactic.Linarith
import Mathlib.Tactic.Positivity
import SavedFilter.Proofs.Calendar.Offsets

/-!
# The fraction of a second

A second is kept to nine digits behind the point, and the digits after the ninth are passed over:

* `TruncatesTo`         the nanoseconds are the whole part of the fraction that a text spells, and
                        all of it if and only if nothing but zeros is passed over;
* `Time.truncatesTo`, `DateTime.truncatesTo`, `OffsetDateTime.truncatesTo`   so it is wherever a time
                        of day is read.
-/

namespace SavedFilter.Calendar
open Text Reader

/-! ## the fraction that a text spells -/

/-- the digits behind the first point -/
def fractionDigits (cs : List Char) : List Char :=
  ((cs.dropWhile (· != '.')).drop 1).takeWhile Char.isDigit

/-- the fraction of a second that a text spells, of any length -/
def spelledFraction (cs : List Char) : ℚ :=
  ofDecimal (fractionDigits cs) / 10 ^ (fractionDigits cs).length

/-- the nanoseconds that the first nine digits behind a point make -/
def nanosOf (ds : List Char) : Nat := ofDecimal (ds.take 9) * tenTo (9 - (ds.take 9).length)

/-- nanoseconds that are the whole part of the fraction that a text spells -/
structure TruncatesTo (cs : List Char) (nano : Nat) : Prop where
  eq_floor : nano = ⌊spelledFraction cs * 10 ^ 9⌋₊
  exact_iff : (nano : ℚ) / 10 ^ 9 = spelledFraction cs ↔
    ∀ c ∈ (fractionDigits cs).drop 9, c = '0'

theorem isDigit_of_mem_fractionDigits {cs : List Char} {c : Char} (h : c ∈ fractionDigits cs) :
    c.isDigit = true := List.mem_takeWhile_imp h

/-- a text up to its fraction, the fraction, and what follows it -/
theorem fractionDigits_append {front ds rest : List Char} (hfront : ∀ c ∈ front, (c != '.') = true)
    (hds : ∀ c ∈ ds, c.isDigit = true) (hrest : Stops Char.isDigit rest) :
    fractionDigits (front ++ '.' :: ds ++ rest) = ds := by
  have hpoint : Stops (· != '.') ('.' :: (ds ++ rest)) := stops_cons _ rfl
  rw [fractionDigits, List.append_assoc, List.cons_append, dropWhile_run hfront hpoint,
    List.drop_one, List.tail_cons, takeWhile_run hds hrest]

theorem fractionDigits_of_no_point {cs : List Char} (h : ∀ c ∈ cs, (c != '.') = true) :
    fractionDigits cs = [] := by
  rw [fractionDigits, List.dropWhile_eq_nil_iff.mpr h]
  rfl

/-! ## the digits that are passed over -/

theorem ofDecimal_eq_zero_iff {ds : List Char} (h : ∀ c ∈ ds, c.isDigit = true) :
    ofDecimal ds = 0 ↔ ∀ c ∈ ds, c = '0' := by
  induction ds with
  | nil => exact ⟨fun _ => List.forall_mem_nil _, fun _ => rfl⟩
  | cons c ds ih =>
    obtain ⟨hc, hds⟩ := List.forall_mem_cons.mp h
    have hzero : c.toNat - 48 = 0 ↔ c = '0' := by
      refine ⟨fun h0 => Char.toNat_inj.mp ?_, fun h0 => by rw [h0]; rfl⟩
      have h48 : 48 ≤ c.toNat := (Char.isDigit_iff_toNat.mp hc).1
      show c.toNat = 48
      omega
    rw [ofDecimal_cons, Nat.add_eq_zero_iff, Nat.mul_eq_zero, ih hds, List.forall_mem_cons, hzero,
      or_iff_left (tenTo_pos ds.length).ne']

/-- the digits that are passed over make a fraction of a nanosecond -/
theorem fraction_mul_eq (ds : List Char) :
    (ofDecimal ds : ℚ) / 10 ^ ds.length * 10 ^ 9 =
      nanosOf ds + (ofDecimal (ds.drop 9) : ℚ) / 10 ^ (ds.drop 9).length := by
  rw [nanosOf]
  rcases Nat.le_total ds.length 9 with hle | hge
  · obtain ⟨k, hk⟩ := Nat.exists_eq_add_of_le hle
    have hshift : tenTo (9 - ds.length) = 10 ^ k := by rw [tenTo_eq, hk, Nat.add_sub_cancel_left]
    rw [List.take_of_length_le hle, List.drop_of_length_le hle, hshift, hk, pow_add, ofDecimal_nil]
    push_cast
    field_simp
    ring
  · have htake : (ds.take 9).length = 9 := by rw [List.length_take, Nat.min_eq_left hge]
    have hlength : ds.length = 9 + (ds.drop 9).length := by
      rw [List.length_drop, Nat.add_sub_cancel' hge]
    have hvalue : ofDecimal ds =
        ofDecimal (ds.take 9) * tenTo (ds.drop 9).length + ofDecimal (ds.drop 9) := by
      rw [← ofDecimal_append, List.take_append_drop]
    rw [hlength, hvalue, htake, Nat.sub_self, tenTo_zero, Nat.mul_one, tenTo_eq, pow_add]
    push_cast
    field_simp

theorem truncatesTo_nanosOf (cs : List Char) : TruncatesTo cs (nanosOf (fractionDigits cs)) := by
  have hdigits : ∀ c ∈ (fractionDigits cs).drop 9, c.isDigit = true :=
    fun c hc => isDigit_of_mem_fractionDigits (List.mem_of_mem_drop hc)
  have hmul : spelledFraction cs * 10 ^ 9 = _ := fraction_mul_eq (fractionDigits cs)
  constructor
  · have hlt := ofDecimal_lt hdigits
    generalize (fractionDigits cs).drop 9 = rest at *
    have hnonneg : 0 ≤ (ofDecimal rest : ℚ) / 10 ^ rest.length := by positivity
    have hpart : (ofDecimal rest : ℚ) / 10 ^ rest.length < 1 := by
      rw [div_lt_one (by positivity)]
      exact_mod_cast hlt
    symm
    rw [Nat.floor_eq_iff (by rw [hmul]; positivity), hmul]
    constructor <;> linarith
  · rw [div_eq_iff (by positivity), hmul, left_eq_add, div_eq_zero_iff,
      or_iff_left (by positivity), Nat.cast_eq_zero, ofDecimal_eq_zero_iff hdigits]

/-! ## readers -/

/-- a fraction at the end of a text -/
theorem fraction_eq_ok {tail : List Char} {nano : Nat} (h : Reader.fraction tail = .ok (nano, [])) :
    (tail = [] ∧ nano = 0) ∨
      ∃ ds, tail = '.' :: ds ∧ (∀ c ∈ ds, c.isDigit = true) ∧ nano = nanosOf ds := by
  unfold fraction at h
  split at h
  · next cs =>
    obtain ⟨⟨run, rest⟩, hdigits, h⟩ := bind_eq_ok.mp h
    obtain ⟨rfl, hrest⟩ := Prod.mk.inj (Except.ok.inj h)
    obtain ⟨hcs, -, hrun, htake⟩ := digits_eq_ok hdigits
    have hall : ∀ c ∈ cs, c.isDigit = true := by
      rw [hcs]
      exact List.forall_mem_append.mpr ⟨hrun, List.dropWhile_eq_nil_iff.mp hrest⟩
    rw [List.takeWhile_eq_self_iff.mpr fun c hc => hall c (List.mem_of_mem_take hc)] at htake
    exact .inr ⟨cs, rfl, hall, by rw [nanosOf, ← htake]⟩
  · obtain ⟨hnano, htail⟩ := Prod.mk.inj (Except.ok.inj h)
    exact .inl ⟨htail, hnano.symm⟩

theorem ne_point_of_isFieldChar {c : Char} (h : isFieldChar c = true) : (c != '.') = true := by
  rw [bne_iff_ne]
  rintro rfl
  cases h

/-- a text up to its fraction, the fraction, and what follows it -/
theorem truncatesTo_append {front tail rest : List Char} {nano : Nat}
    (hfront : ∀ c ∈ front, (c != '.') = true) (h : Reader.fraction tail = .ok (nano, []))
    (hrest : ∀ c ∈ rest, (c != '.') = true) (hstops : Stops Char.isDigit rest) :
    TruncatesTo (front ++ tail ++ rest) nano := by
  obtain ⟨rfl, rfl⟩ | ⟨ds, rfl, hds, rfl⟩ := fraction_eq_ok h
  · have hnone := fractionDigits_of_no_point (List.forall_mem_append.mpr ⟨hfront, hrest⟩)
    have := truncatesTo_nanosOf (front ++ rest)
    rw [hnone] at this
    rwa [List.append_nil]
  · have := truncatesTo_nanosOf (front ++ '.' :: ds ++ rest)
    rwa [fractionDigits_append hfront hds hstops] at this

theorem Time.truncatesTo {cs : List Char} {t : Time} (h : Time.read cs = .ok t) :
    TruncatesTo cs t.nano := by
  obtain ⟨tail, ⟨front, rfl, hfront⟩, hfraction⟩ := Time.exists_of_read h
  rw [← List.append_nil (front ++ tail)]
  exact truncatesTo_append (fun c hc => ne_point_of_isFieldChar (hfront c hc)) hfraction
    (List.forall_mem_nil _) stops_nil

/-- a date and time and a text without a point -/
theorem DateTime.truncatesTo_append {l rest : List Char} {d : DateTime}
    (h : DateTime.read l = .ok d) (hrest : ∀ c ∈ rest, (c != '.') = true)
    (hstops : Stops Char.isDigit rest) : TruncatesTo (l ++ rest) d.time.nano := by
  obtain ⟨-, tail, ⟨date, rfl, hdate⟩, ⟨clock, rfl, hclock⟩, hfraction⟩ :=
    DateTime.exists_of_read h
  have hfront : ∀ c ∈ date ++ 'T' :: clock, (c != '.') = true :=
    List.forall_mem_append.mpr ⟨fun c hc => ne_point_of_isFieldChar (hdate c hc),
      List.forall_mem_cons.mpr ⟨rfl, fun c hc => ne_point_of_isFieldChar (hclock c hc)⟩⟩
  have := Calendar.truncatesTo_append hfront hfraction hrest hstops
  rwa [List.append_assoc date, List.cons_append] at this

theorem DateTime.truncatesTo {cs : List Char} {d : DateTime} (h : DateTime.read cs = .ok d) :
    TruncatesTo cs d.time.nano := by
  rw [← List.append_nil cs]
  exact DateTime.truncatesTo_append h (List.forall_mem_nil _) stops_nil

theorem OffsetDateTime.SpellsMagnitude.no_point {cs : List Char} {n : Nat}
    (h : SpellsMagnitude cs n) : ∀ c ∈ cs, (c != '.') = true := by
  intro c hc
  rw [bne_iff_ne]
  rcases h.isDigit_or_colon c hc with hdigit | hcolon
  · exact ne_of_isDigit hdigit rfl
  · rw [hcolon]
    decide

theorem OffsetDateTime.Spells.no_point {o : List Char} {n : Int} (h : Spells o n) :
    ∀ c ∈ o, (c != '.') = true := by
  cases h with
  | ahead h => exact List.forall_mem_cons.mpr ⟨rfl, h.no_point⟩
  | behind h => exact List.forall_mem_cons.mpr ⟨rfl, h.no_point⟩

theorem OffsetDateTime.Spells.stops_isDigit {o : List Char} {n : Int} (h : Spells o n) :
    Stops Char.isDigit o := by
  cases h with
  | ahead _ => exact stops_cons _ rfl
  | behind _ => exact stops_cons _ rfl

theorem OffsetDateTime.truncatesTo {cs : List Char} {d : OffsetDateTime}
    (h : OffsetDateTime.read cs = .ok d) : TruncatesTo cs d.moment.time.nano := by
  obtain ⟨l, o, rfl, hl, ho⟩ := OffsetDateTime.read_eq_ok_iff.mp h
  exact DateTime.truncatesTo_append hl ho.no_point ho.stops_isDigit

end SavedFilter.Calendar
