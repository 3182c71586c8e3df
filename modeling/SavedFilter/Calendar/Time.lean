import SavedFilter.Text.Digits

/-!
# Times of day

A minute may have a second 60, a leap second.  The fraction of a second is kept in nanoseconds and
written with none, three, six or nine digits, whichever are enough.
-/

namespace SavedFilter.Calendar
open Text

def nanosPerSecond : Nat := 1000000000

def IsTime (hour minute second nano : Nat) : Prop :=
  hour < 24 ∧ minute < 60 ∧ second ≤ 60 ∧ nano < nanosPerSecond

instance (hour minute second nano : Nat) : Decidable (IsTime hour minute second nano) :=
  inferInstanceAs (Decidable (_ ∧ _ ∧ _ ∧ _))

structure Time where
  hour : Nat
  minute : Nat
  second : Nat
  nano : Nat
  valid : IsTime hour minute second nano
  deriving DecidableEq, Repr

namespace Time

def of? (hour minute second nano : Nat) : Option Time :=
  if h : IsTime hour minute second nano then some ⟨hour, minute, second, nano, h⟩ else none

/-- the full seconds since midnight; a leap second belongs to the second before it -/
def secondOfDay (t : Time) : Nat := t.hour * 3600 + t.minute * 60 + min t.second 59

/-- the nanoseconds since the last of these seconds; those of a leap second come after a
full second -/
def fraction (t : Time) : Nat := if t.second = 60 then nanosPerSecond + t.nano else t.nano

def fractionText (nano : Nat) : List Char :=
  if nano = 0 then []
  else if nano % 1000000 = 0 then '.' :: padded 3 (nano / 1000000)
  else if nano % 1000 = 0 then '.' :: padded 6 (nano / 1000)
  else '.' :: padded 9 nano

def text (t : Time) : List Char :=
  padded 2 t.hour ++ ':' :: padded 2 t.minute ++ ':' :: padded 2 t.second ++ fractionText t.nano

theorem of?_eq_some {hour minute second nano : Nat} (h : IsTime hour minute second nano) :
    of? hour minute second nano = some ⟨hour, minute, second, nano, h⟩ := dif_pos h

end Time
end SavedFilter.Calendar
