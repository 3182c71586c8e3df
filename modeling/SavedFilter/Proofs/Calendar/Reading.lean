import Mathlib.Tactic.SplitIfs
import SavedFilter.Calendar.Reader
import SavedFilter.Proofs.Except
import SavedFilter.Proofs.Text.Runs

/-!
# What a reader of dates takes off the text

Up to the `T` of a date with a time, and from there up to the point of a fraction, a text that is
read holds blanks, digits, signs and colons only (`isFieldChar`).  So its first `T` stands between
the date and the time, and its first point in front of the fraction:

* `Passes`           a reader passes over characters of the fields;
* `digits_eq_ok`     the digits that are read are the first ones of the text;
* `passes_of_dateFields`, `exists_of_clock`  year to day, and hour to second;
* `Time.exists_of_read`, `DateTime.exists_of_read`  the parts of a text that is read.
-/

namespace SavedFilter.Calendar
open Text Reader

/-- the characters in front of a `T` and of a point -/
def isFieldChar (c : Char) : Bool :=
  isBlank c || c.isDigit || OffsetDateTime.isSign c || c == ':'

/-- a text with characters of the fields in front of the rest -/
def Passes (cs rest : List Char) : Prop :=
  ∃ front, cs = front ++ rest ∧ ∀ c ∈ front, isFieldChar c = true

section
variable {cs ds rest : List Char}

theorem Passes.trans (h : Passes cs ds) (h' : Passes ds rest) : Passes cs rest := by
  obtain ⟨front, rfl, hfront⟩ := h
  obtain ⟨behind, rfl, hbehind⟩ := h'
  refine ⟨front ++ behind, (List.append_assoc ..).symm, ?_⟩
  intro c hc
  rcases List.mem_append.mp hc with hc | hc
  · exact hfront c hc
  · exact hbehind c hc

theorem passes_cons {c : Char} (hc : isFieldChar c = true) (cs : List Char) :
    Passes (c :: cs) cs := ⟨[c], rfl, List.forall_mem_singleton.mpr hc⟩

theorem passes_trimStart (cs : List Char) : Passes cs (trimStart cs) := by
  refine ⟨cs.takeWhile isBlank, List.takeWhile_append_dropWhile.symm, ?_⟩
  intro c hc
  rw [isFieldChar, List.mem_takeWhile_imp hc]
  rfl

/-! ## numbers and single characters -/

theorem literal_eq_ok {l : Char} : literal l cs = .ok rest ↔ cs = l :: rest := by
  cases cs with
  | nil => exact ⟨fun h => (by cases h), fun h => (by cases h)⟩
  | cons c cs =>
    rw [literal]
    split_ifs with hc
    · rw [hc, Except.ok.injEq, List.cons_inj_right]
    · exact ⟨fun h => (by cases h), fun h => absurd (List.cons.inj h).1 hc⟩

/-- the digits that are read, as many as there are up to the width -/
theorem digits_eq_ok {width : Nat} (h : digits width cs = .ok (ds, rest)) :
    cs = ds ++ rest ∧ ds ≠ [] ∧ (∀ c ∈ ds, c.isDigit = true) ∧
      ds = (cs.take width).takeWhile Char.isDigit := by
  have htake : (cs.take width).takeWhile Char.isDigit <+: cs :=
    (List.takeWhile_prefix _).trans (List.take_prefix _ _)
  have hdigit : ∀ c ∈ (cs.take width).takeWhile Char.isDigit, c.isDigit = true :=
    fun c hc => List.mem_takeWhile_imp hc
  rw [digits] at h
  cases hrun : (cs.take width).takeWhile Char.isDigit with
  | nil =>
    rw [hrun] at h
    cases h
  | cons d run =>
    rw [hrun] at h htake hdigit
    obtain ⟨rfl, rfl⟩ := Prod.mk.inj (Except.ok.inj h)
    obtain ⟨behind, rfl⟩ := htake
    exact ⟨by rw [List.drop_left], List.cons_ne_nil d run, hdigit, rfl⟩

theorem passes_of_digits {width : Nat} (h : digits width cs = .ok (ds, rest)) :
    Passes cs rest := by
  obtain ⟨hcs, -, hdigit, -⟩ := digits_eq_ok h
  refine ⟨ds, hcs, ?_⟩
  intro c hc
  simp only [isFieldChar, hdigit c hc, Bool.or_true, Bool.true_or]

theorem passes_of_literal {l : Char} (hl : isFieldChar l = true) (h : literal l cs = .ok rest) :
    Passes cs rest := by
  rw [literal_eq_ok.mp h]
  exact passes_cons hl rest

theorem passes_of_field {low high n : Nat} (h : field low high cs = .ok (n, rest)) :
    Passes cs rest := by
  obtain ⟨⟨ds, ds'⟩, hdigits, h⟩ := bind_eq_ok.mp h
  dsimp only at h
  split_ifs at h
  obtain ⟨-, rfl⟩ := Prod.mk.inj (Except.ok.inj h)
  exact (passes_trimStart cs).trans (passes_of_digits hdigits)

/-! ## dates -/

theorem rest_of_checkYear {y y' : Int} (h : checkYear y ds = .ok (y', rest)) : ds = rest := by
  unfold checkYear at h
  split_ifs at h
  exact (Prod.mk.inj (Except.ok.inj h)).2

theorem passes_of_year {y : Int} (h : year cs = .ok (y, rest)) : Passes cs rest := by
  refine (passes_trimStart cs).trans ?_
  rw [year] at h
  split at h
  · next ds' he =>
    obtain ⟨⟨run, ds⟩, hdigits, h⟩ := bind_eq_ok.mp h
    rw [he, ← rest_of_checkYear h]
    exact (passes_cons rfl _).trans (passes_of_digits hdigits)
  · next ds' he =>
    obtain ⟨⟨run, ds⟩, hdigits, h⟩ := bind_eq_ok.mp h
    rw [he, ← rest_of_checkYear h]
    exact (passes_cons rfl _).trans (passes_of_digits hdigits)
  · obtain ⟨⟨run, ds⟩, hdigits, h⟩ := bind_eq_ok.mp h
    rw [← rest_of_checkYear h]
    exact passes_of_digits hdigits

theorem passes_of_dateFields {fields : Int × Nat × Nat} (h : dateFields cs = .ok (fields, rest)) :
    Passes cs rest := by
  obtain ⟨⟨y, cs₁⟩, hyear, h⟩ := bind_eq_ok.mp h
  obtain ⟨cs₂, hdash, h⟩ := bind_eq_ok.mp h
  obtain ⟨⟨month, cs₃⟩, hmonth, h⟩ := bind_eq_ok.mp h
  obtain ⟨cs₄, hdash', h⟩ := bind_eq_ok.mp h
  obtain ⟨⟨day, cs₅⟩, hday, h⟩ := bind_eq_ok.mp h
  obtain ⟨-, rfl⟩ := Prod.mk.inj (Except.ok.inj h)
  exact (passes_of_year hyear).trans ((passes_of_literal rfl hdash).trans
    ((passes_of_field hmonth).trans ((passes_of_literal rfl hdash').trans (passes_of_field hday))))

/-! ## times -/

/-- hour, minute and second are passed over, and the fraction is read from what follows them -/
theorem exists_of_clock {t : Time} (h : clock cs = .ok (t, rest)) :
    ∃ tail, Passes cs tail ∧ fraction tail = .ok (t.nano, rest) := by
  obtain ⟨⟨hour, cs₁⟩, hhour, h⟩ := bind_eq_ok.mp h
  obtain ⟨cs₂, hcolon, h⟩ := bind_eq_ok.mp h
  obtain ⟨⟨minute, cs₃⟩, hminute, h⟩ := bind_eq_ok.mp h
  obtain ⟨cs₄, hcolon', h⟩ := bind_eq_ok.mp h
  obtain ⟨⟨second, cs₅⟩, hsecond, h⟩ := bind_eq_ok.mp h
  obtain ⟨⟨nano, cs₆⟩, hfraction, h⟩ := bind_eq_ok.mp h
  refine ⟨cs₅, (passes_of_field hhour).trans ((passes_of_literal rfl hcolon).trans
    ((passes_of_field hminute).trans ((passes_of_literal rfl hcolon').trans
      (passes_of_field hsecond)))), ?_⟩
  dsimp only [Time.of?] at h
  split_ifs at h with hvalid
  obtain ⟨rfl, rfl⟩ := Prod.mk.inj (Except.ok.inj h)
  exact hfraction

theorem eq_nil_of_atEnd {u : Unit} (h : atEnd cs = .ok u) : cs = [] := by
  unfold atEnd at h
  split_ifs at h with hcs
  exact List.isEmpty_iff.mp hcs

theorem Time.exists_of_read {t : Time} (h : Time.read cs = .ok t) :
    ∃ tail, Passes cs tail ∧ Reader.fraction tail = .ok (t.nano, []) := by
  obtain ⟨⟨t', rest⟩, hclock, h⟩ := bind_eq_ok.mp h
  obtain ⟨u, hend, h⟩ := bind_eq_ok.mp h
  rw [eq_nil_of_atEnd hend] at hclock
  rw [← Except.ok.inj h]
  exact exists_of_clock hclock

/-- a date, a `T` and a time -/
theorem DateTime.exists_of_read {d : DateTime} (h : DateTime.read cs = .ok d) :
    ∃ clockText tail, Passes cs ('T' :: clockText) ∧ Passes clockText tail ∧
      fraction tail = .ok (d.time.nano, []) := by
  obtain ⟨⟨fields, cs₁⟩, hdate, h⟩ := bind_eq_ok.mp h
  obtain ⟨cs₂, hmark, h⟩ := bind_eq_ok.mp h
  obtain ⟨⟨t, rest⟩, hclock, h⟩ := bind_eq_ok.mp h
  obtain ⟨u, hend, h⟩ := bind_eq_ok.mp h
  obtain ⟨date, -, h⟩ := bind_eq_ok.mp h
  rw [eq_nil_of_atEnd hend] at hclock
  rw [← Except.ok.inj h]
  obtain ⟨tail, htail, hfraction⟩ := exists_of_clock hclock
  have hpasses := passes_of_dateFields hdate
  rw [literal_eq_ok.mp hmark] at hpasses
  exact ⟨cs₂, tail, hpasses, htail, hfraction⟩

end
end SavedFilter.Calendar
