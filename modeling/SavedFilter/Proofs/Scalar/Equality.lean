import SavedFilter.Proofs.Calendar.Days
import SavedFilter.Proofs.Decimal.Spelling
import SavedFilter.Proofs.Scalar.RoundTrip

/-!
# When two values are the same

Doubles, decimals and moments with an offset are the same when they denote the same number or the
same instant, and so may be written differently; a NaN is not even the same as itself.

* `Decimal.same_iff`           decimals are the same when they are the same rational number;
* `OffsetDateTime.same_iff`    moments are the same when their universal times are;
* `Scalar.partialEquality`     so this is an equality, but for the NaNs.
-/

namespace SavedFilter

/-- A test of equality under which all elements but some odd ones are the same as themselves. -/
structure PartialEquality {α : Type} (same : α → α → Bool) (isOdd : α → Bool) : Prop where
  comm : ∀ a b, same a b = same b a
  trans : ∀ {a b c}, same a b = true → same b c = true → same a c = true
  self : ∀ a, same a a = !isOdd a

/-! ## doubles -/

namespace Binary64

theorem same_iff (x y : Binary64) : x.same y = true ↔
    x.isNaN = false ∧ y.isNaN = false ∧ (x = y ∨ x.magnitude = 0 ∧ y.magnitude = 0) := by
  have hbits : x = y ↔ x.bits = y.bits := by
    cases x
    cases y
    rw [mk.injEq]
  rw [hbits]
  simp [same, and_assoc]

theorem same_trans {x y z : Binary64} (hxy : x.same y = true) (hyz : y.same z = true) :
    x.same z = true := by
  rw [same_iff] at hxy hyz ⊢
  obtain ⟨hx, -, hxy⟩ := hxy
  obtain ⟨-, hz, hyz⟩ := hyz
  refine ⟨hx, hz, ?_⟩
  rcases hxy with rfl | ⟨hx₀, hy₀⟩
  · exact hyz
  · rcases hyz with rfl | ⟨-, hz₀⟩
    · exact .inr ⟨hx₀, hy₀⟩
    · exact .inr ⟨hx₀, hz₀⟩

theorem same_self (x : Binary64) : x.same x = !x.isNaN := by
  rw [same, beq_self_eq_true, Bool.true_or, Bool.and_true, Bool.and_self]

end Binary64

/-! ## decimals -/

namespace Decimal
open Text

/-- **Decimals of any two scales are the same when they are the same number.** -/
theorem same_iff (a b : Decimal) : a.same b = true ↔ a.value = b.value := by
  have hpos : ∀ n : Nat, (10 : ℚ) ^ n ≠ 0 := fun n => by positivity
  have hten : ∀ n : Nat, (tenTo n : ℚ) = 10 ^ n := fun n => by
    show ((Nat.pow 10 n : ℕ) : ℚ) = _
    exact_mod_cast rfl
  rw [value, value, div_eq_div_iff (hpos _) (hpos _), ← hten, ← hten, same, beq_iff_eq]
  exact_mod_cast Iff.rfl

end Decimal

/-! ## moments with an offset -/

namespace Calendar

/-- a day and the time since its midnight; the nanoseconds of a leap second follow a full second -/
structure UniversalTime where
  date : Date
  second : Nat
  nano : Nat
  deriving DecidableEq

namespace OffsetDateTime

/-- the universal time of a moment is its local time less the offset -/
structure IsAt (d : OffsetDateTime) (u : UniversalTime) : Prop where
  second_lt : u.second < 86400
  seconds_eq : u.date.dayNumber * 86400 + u.second = d.moment.seconds - d.offset
  nano_eq : u.nano = d.moment.time.fraction

theorem IsAt.unique {d : OffsetDateTime} {u v : UniversalTime} (hu : d.IsAt u) (hv : d.IsAt v) :
    u = v := by
  obtain ⟨hu, hus, hun⟩ := hu
  obtain ⟨hv, hvs, hvn⟩ := hv
  have hday : u.date.dayNumber = v.date.dayNumber := by omega
  have hdate := Date.dayNumber_injective hday
  have hsecond : u.second = v.second := by omega
  cases u
  cases v
  simp_all

/-- every moment has a universal time, as its instant lies in the calendar -/
theorem existsUnique_isAt (d : OffsetDateTime) : ∃! u, d.IsAt u := by
  obtain ⟨-, -, hlo, hhi⟩ := d.valid
  rw [firstSecond] at hlo
  rw [lastSecond] at hhi
  obtain ⟨date, hdate⟩ := Date.exists_date (n := (d.moment.seconds - d.offset) / 86400)
    (by omega) (by omega)
  have hu : d.IsAt
      ⟨date, ((d.moment.seconds - d.offset) % 86400).toNat, d.moment.time.fraction⟩ := by
    refine ⟨?_, ?_, rfl⟩
    · show ((d.moment.seconds - d.offset) % 86400).toNat < 86400
      omega
    · show date.dayNumber * 86400 + ((d.moment.seconds - d.offset) % 86400).toNat = _
      omega
  exact ⟨_, hu, fun v hv => hv.unique hu⟩

theorem same_iff_instant (a b : OffsetDateTime) : a.same b = true ↔ a.instant = b.instant :=
  beq_iff_eq

/-- **Moments are the same when their universal times are**, whatever their offsets. -/
theorem same_iff (a b : OffsetDateTime) : a.same b = true ↔ ∃ u, a.IsAt u ∧ b.IsAt u := by
  rw [same_iff_instant]
  constructor
  · intro h
    obtain ⟨u, hu, -⟩ := a.existsUnique_isAt
    exact ⟨u, hu, hu.second_lt, hu.seconds_eq.trans (congrArg Prod.fst h),
      hu.nano_eq.trans (congrArg Prod.snd h)⟩
  · rintro ⟨u, ha, hb⟩
    exact Prod.ext (ha.seconds_eq.symm.trans hb.seconds_eq) (ha.nano_eq.symm.trans hb.nano_eq)

end OffsetDateTime
end Calendar

/-! ## all values -/

namespace Scalar

/-- values that are the same are equal, or of one of the three kinds that denote something -/
theorem cases_of_same {v w : Scalar} (h : v.same w = true) :
    (∃ x y, v = .double x ∧ w = .double y ∧ x.same y = true) ∨
    (∃ a b, v = .decimal a ∧ w = .decimal b ∧ a.same b = true) ∨
    (∃ a b, v = .offsetDateTime a ∧ w = .offsetDateTime b ∧ a.same b = true) ∨ v = w := by
  unfold same at h
  split at h
  · exact .inl ⟨_, _, rfl, rfl, h⟩
  · exact .inr (.inl ⟨_, _, rfl, rfl, h⟩)
  · exact .inr (.inr (.inl ⟨_, _, rfl, rfl, h⟩))
  · exact .inr (.inr (.inr (of_decide_eq_true h)))

theorem kind?_eq_of_same {v w : Scalar} (h : v.same w = true) : v.kind? = w.kind? := by
  rcases cases_of_same h with ⟨x, y, rfl, rfl, -⟩ | ⟨a, b, rfl, rfl, -⟩ | ⟨a, b, rfl, rfl, -⟩ | rfl
  all_goals rfl

section
variable {w : Scalar}

theorem eq_double_of_same {x : Binary64} (h : (Scalar.double x).same w = true) :
    ∃ y, w = .double y ∧ x.same y = true := by
  cases w with
  | double y => exact ⟨y, rfl, h⟩
  | _ => cases kind?_eq_of_same h

theorem eq_decimal_of_same {a : Decimal} (h : (Scalar.decimal a).same w = true) :
    ∃ b, w = .decimal b ∧ a.same b = true := by
  cases w with
  | decimal b => exact ⟨b, rfl, h⟩
  | _ => cases kind?_eq_of_same h

theorem eq_offsetDateTime_of_same {a : Calendar.OffsetDateTime}
    (h : (Scalar.offsetDateTime a).same w = true) :
    ∃ b, w = .offsetDateTime b ∧ a.same b = true := by
  cases w with
  | offsetDateTime b => exact ⟨b, rfl, h⟩
  | _ => cases kind?_eq_of_same h

end

theorem same_symm {v w : Scalar} (h : v.same w = true) : w.same v = true := by
  rcases cases_of_same h with
    ⟨x, y, rfl, rfl, hxy⟩ | ⟨a, b, rfl, rfl, hab⟩ | ⟨a, b, rfl, rfl, hab⟩ | rfl
  · exact (y.same_comm x).trans hxy
  · exact (b.same_comm a).trans hab
  · exact (b.same_comm a).trans hab
  · exact h

theorem same_trans {u v w : Scalar} (h : u.same v = true) (h' : v.same w = true) :
    u.same w = true := by
  rcases cases_of_same h with
    ⟨x, y, rfl, rfl, hxy⟩ | ⟨a, b, rfl, rfl, hab⟩ | ⟨a, b, rfl, rfl, hab⟩ | rfl
  · obtain ⟨z, rfl, hyz⟩ := eq_double_of_same h'
    exact Binary64.same_trans hxy hyz
  · obtain ⟨c, rfl, hbc⟩ := eq_decimal_of_same h'
    exact (a.same_iff c).mpr (((a.same_iff b).mp hab).trans ((b.same_iff c).mp hbc))
  · obtain ⟨c, rfl, hbc⟩ := eq_offsetDateTime_of_same h'
    exact (a.same_iff_instant c).mpr
      (((a.same_iff_instant b).mp hab).trans ((b.same_iff_instant c).mp hbc))
  · exact h'

theorem same_self (v : Scalar) : v.same v = !v.isNaN := by
  cases v with
  | double x => exact x.same_self
  | decimal d => exact beq_self_eq_true _
  | offsetDateTime d => exact beq_self_eq_true _
  | _ => simp [same, isNaN]

/-- **Values have an equality, but for the NaNs.** -/
theorem partialEquality : PartialEquality same isNaN where
  comm _ _ := Bool.eq_iff_iff.mpr ⟨same_symm, same_symm⟩
  trans := same_trans
  self := same_self

end Scalar
end SavedFilter
