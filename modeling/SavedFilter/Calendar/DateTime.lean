import SavedFilter.Calendar.Date
import SavedFilter.Calendar.Time

/-!
# Moments

A `DateTime` is a date and a time of day without a zone.  An `OffsetDateTime` also says how far the
local clock is ahead of universal time, to the second; two of them are the same when they name the
same instant, whatever their offsets.  The instant has to lie in the calendar too.
-/

namespace SavedFilter.Calendar
open Text

structure DateTime where
  date : Date
  time : Time
  deriving DecidableEq, Repr

namespace DateTime

def text (d : DateTime) : List Char := d.date.text ++ 'T' :: d.time.text

def seconds (d : DateTime) : Int := d.date.dayNumber * 86400 + d.time.secondOfDay

end DateTime

/-- the seconds of universal time that the calendar has -/
def firstSecond : Int := Date.first.dayNumber * 86400
def lastSecond : Int := Date.last.dayNumber * 86400 + 86399

/-- an offset of less than a day, and an instant within the calendar -/
def IsOffset (moment : DateTime) (offset : Int) : Prop :=
  -86400 < offset ∧ offset < 86400 ∧
    firstSecond ≤ moment.seconds - offset ∧ moment.seconds - offset ≤ lastSecond

instance (moment : DateTime) (offset : Int) : Decidable (IsOffset moment offset) :=
  inferInstanceAs (Decidable (_ ∧ _ ∧ _ ∧ _))

/-- a local date and time with the seconds that it is ahead of universal time -/
structure OffsetDateTime where
  moment : DateTime
  offset : Int
  valid : IsOffset moment offset
  deriving DecidableEq, Repr

namespace OffsetDateTime

def of? (moment : DateTime) (offset : Int) : Option OffsetDateTime :=
  if h : IsOffset moment offset then some ⟨moment, offset, h⟩ else none

/-- seconds and nanoseconds of universal time -/
def instant (d : OffsetDateTime) : Int × Nat :=
  (d.moment.seconds - d.offset, d.moment.time.fraction)

def same (a b : OffsetDateTime) : Bool := a.instant == b.instant

/-- sign, hours and minutes, and the seconds if there are any -/
def offsetText (offset : Int) : List Char :=
  let n := offset.natAbs
  (if offset < 0 then '-' else '+') :: padded 2 (n / 3600) ++ ':' :: padded 2 (n / 60 % 60) ++
    (if n % 60 = 0 then [] else ':' :: padded 2 (n % 60))

def text (d : OffsetDateTime) : List Char := d.moment.text ++ offsetText d.offset

theorem of?_eq_some {moment : DateTime} {offset : Int} (h : IsOffset moment offset) :
    of? moment offset = some ⟨moment, offset, h⟩ := dif_pos h

theorem same_comm (a b : OffsetDateTime) : a.same b = b.same a := by
  simp only [same, BEq.comm]

end OffsetDateTime
end SavedFilter.Calendar
