import Mathlib.Algebra.Order.SuccPred
import Mathlib.Data.Int.ConditionallyCompleteOrder
import Mathlib.Data.Int.SuccPred
import Mathlib.Data.Nat.SuccPred
import Mathlib.Order.SuccPred.IntervalSucc
import SavedFilter.Calendar.Date

/-!
# The numbers of days

The years lie one behind the other, and so do the months of a year.  A number therefore falls into
one year and into one month of it:

* `daysBeforeYear_succ`   a year has as many days as its months together;
* `dayNumber_injective`   two dates have two numbers;
* `exists_date`           and every number from the first date to the last is that of a date.
-/

namespace SavedFilter.Calendar
namespace Date

/-! ## years and months -/

/-- the days from the end of the year 0 to the begin of a year -/
def daysBeforeYear (year : Int) : Int :=
  365 * (year - 1) + (year - 1) / 4 - (year - 1) / 100 + (year - 1) / 400

theorem dayNumber_eq (d : Date) :
    d.dayNumber = daysBeforeYear d.year + daysBeforeMonth d.year d.month + d.day := rfl

theorem daysBeforeMonth_thirteen (year : Int) :
    daysBeforeMonth year 13 = if isLeapYear year then 366 else 365 := by
  simp only [daysBeforeMonth, daysInMonth]
  split_ifs <;> rfl

theorem isLeapYear_iff (year : Int) :
    isLeapYear year = true ↔ year % 4 = 0 ∧ (year % 100 ≠ 0 ∨ year % 400 = 0) := by
  simp [isLeapYear]

theorem daysBeforeYear_succ (year : Int) :
    daysBeforeYear (year + 1) = daysBeforeYear year + daysBeforeMonth year 13 := by
  have hleap := isLeapYear_iff year
  rw [daysBeforeMonth_thirteen, daysBeforeYear, daysBeforeYear]
  split_ifs with h
  · have := hleap.mp h
    omega
  · have := mt hleap.mpr h
    omega

theorem monotone_daysBeforeYear : Monotone daysBeforeYear := by
  apply monotone_int_of_le_succ
  intro year
  rw [daysBeforeYear_succ]
  omega

theorem monotone_daysBeforeMonth (year : Int) : Monotone (daysBeforeMonth year) :=
  monotone_nat_of_le_succ fun _ => Nat.le_add_right _ _

/-- of intervals that lie one behind the other only one holds a number -/
theorem eq_of_mem_Ioc {ι α : Type*} [LinearOrder ι] [SuccOrder ι] [LinearOrder α] {f : ι → α}
    (hf : Monotone f) {i j : ι} {n : α} (hi : n ∈ Set.Ioc (f i) (f (Order.succ i)))
    (hj : n ∈ Set.Ioc (f j) (f (Order.succ j))) : i = j :=
  hf.pairwise_disjoint_on_Ioc_succ.eq (Set.not_disjoint_iff.mpr ⟨n, hi, hj⟩)

/-! ## one date for every number -/

section
variable (d : Date)

theorem month_lt : d.month < 13 := by
  obtain ⟨-, -, hday, hlast⟩ := d.valid
  have hpos := hday.trans hlast
  unfold daysInMonth at hpos
  split at hpos
  all_goals omega

/-- the day of the year lies in its month -/
theorem dayOfYear_mem : daysBeforeMonth d.year d.month + d.day ∈
    Set.Ioc (daysBeforeMonth d.year d.month) (daysBeforeMonth d.year (Order.succ d.month)) := by
  obtain ⟨-, -, hday, hlast⟩ := d.valid
  exact ⟨Nat.lt_add_of_pos_right hday, Nat.add_le_add_left hlast _⟩

/-- the day lies in its year -/
theorem dayNumber_mem : d.dayNumber ∈
    Set.Ioc (daysBeforeYear d.year) (daysBeforeYear (Order.succ d.year)) := by
  have hyear := monotone_daysBeforeMonth d.year (Nat.succ_le_of_lt d.month_lt)
  obtain ⟨hlo, hhi⟩ := d.dayOfYear_mem
  have hsucc : daysBeforeYear (Order.succ d.year) =
    daysBeforeYear d.year + daysBeforeMonth d.year 13 := daysBeforeYear_succ d.year
  rw [Set.mem_Ioc, hsucc, dayNumber_eq]
  rw [Nat.succ_eq_add_one] at hyear
  rw [Order.succ_eq_add_one] at hhi
  omega

end

/-- **Two dates have two numbers.** -/
theorem dayNumber_injective : Function.Injective dayNumber := by
  intro a b h
  have hyear : a.year = b.year :=
    eq_of_mem_Ioc monotone_daysBeforeYear a.dayNumber_mem (h ▸ b.dayNumber_mem)
  rw [dayNumber_eq, dayNumber_eq, hyear] at h
  have hday : daysBeforeMonth b.year a.month + a.day = daysBeforeMonth b.year b.month + b.day := by
    omega
  have hmem := a.dayOfYear_mem
  rw [hyear, hday] at hmem
  have hmonth : a.month = b.month :=
    eq_of_mem_Ioc (monotone_daysBeforeMonth b.year) hmem b.dayOfYear_mem
  rw [hmonth, Nat.add_left_cancel_iff] at hday
  obtain ⟨ya, ma, da, va⟩ := a
  obtain ⟨yb, mb, db, vb⟩ := b
  obtain rfl : ya = yb := hyear
  obtain rfl : ma = mb := hmonth
  obtain rfl : da = db := hday
  rfl

/-- **Every number from the first date to the last is that of a date.** -/
theorem exists_date {n : Int} (hlo : first.dayNumber ≤ n) (hhi : n ≤ last.dayNumber) :
    ∃ d : Date, d.dayNumber = n := by
  have hfirst : daysBeforeYear firstYear + 1 = first.dayNumber := by decide
  have hlast : daysBeforeYear (lastYear + 1) = last.dayNumber := by decide
  have hyears := (monotone_daysBeforeYear.biUnion_Ico_Ioc_map_succ firstYear (lastYear + 1)).ge
    ⟨by omega, hlast ▸ hhi⟩
  obtain ⟨year, ⟨hy, hy'⟩, hn, hn'⟩ := Set.mem_iUnion₂.mp hyears
  rw [Order.succ_eq_add_one, daysBeforeYear_succ] at hn'
  obtain ⟨k, hk⟩ : ∃ k : Nat, n = daysBeforeYear year + k :=
    ⟨(n - daysBeforeYear year).toNat, by omega⟩
  have hmonths := ((monotone_daysBeforeMonth year).biUnion_Ico_Ioc_map_succ 1 13).ge
    (show k ∈ Set.Ioc 0 (daysBeforeMonth year 13) from ⟨by omega, by omega⟩)
  obtain ⟨month, -, hm, hm'⟩ := Set.mem_iUnion₂.mp hmonths
  have hlen : k ≤ daysBeforeMonth year month + daysInMonth year month := hm'
  have hvalid : IsDate year month (k - daysBeforeMonth year month) :=
    ⟨hy, Int.lt_add_one_iff.mp hy', by omega, by omega⟩
  refine ⟨⟨year, month, _, hvalid⟩, ?_⟩
  rw [dayNumber_eq, hk]
  show daysBeforeYear year + daysBeforeMonth year month + (k - daysBeforeMonth year month : Nat) = _
  omega

end Date
end SavedFilter.Calendar
