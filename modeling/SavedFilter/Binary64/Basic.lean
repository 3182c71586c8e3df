/-!
# Binary floating-point numbers of 64 bits

A double is kept as its bits.  The bits without the sign are its *magnitude*, a natural number
below `2^63`, and magnitudes are ordered as the numbers are: zero, the subnormal numbers, the
normal numbers, infinity (`infinite`), and above it the NaNs.

Every finite magnitude is a whole number of the smallest positive double `2^-1074`, its *units*:

* `step b`    the binary logarithm of the distance between `b` and the next magnitude, in units;
* `units b`   the units of the finite magnitude `b`.
-/

namespace SavedFilter

/-- a number of the IEEE 754 format binary64, by its bits -/
structure Binary64 where
  bits : UInt64
  deriving DecidableEq, Repr

namespace Binary64

def signWeight : Nat := 0x8000000000000000

def exponentWeight : Nat := 0x10000000000000

def infinite : Nat := 0x7FF0000000000000

def ofMagnitude (negative : Bool) (b : Nat) : Binary64 :=
  ⟨UInt64.ofNat (if negative then signWeight + b else b)⟩

def isNegative (x : Binary64) : Bool := signWeight ≤ x.bits.toNat

def magnitude (x : Binary64) : Nat := x.bits.toNat % signWeight

def isNaN (x : Binary64) : Bool := infinite < x.magnitude

def isFinite (x : Binary64) : Bool := x.magnitude < infinite

/-- the NaN that is read from a text: quiet, positive, without payload -/
def nan : Binary64 := ofMagnitude false 0x7FF8000000000000

def infinity (negative : Bool) : Binary64 := ofMagnitude negative infinite

/-- equality of numbers: the two zeros are equal and a NaN equals nothing -/
def same (x y : Binary64) : Bool :=
  !x.isNaN && !y.isNaN && (x.bits == y.bits || (x.magnitude == 0 && y.magnitude == 0))

/-! ## the numbers as multiples of the smallest one -/

/-- the magnitude after `b` is `1 <<< step b` units away -/
def step (b : Nat) : Nat := b / exponentWeight - 1

/-- how many times `2^-1074` the magnitude `b` is -/
def units (b : Nat) : Nat := (b - step b * exponentWeight) <<< step b

def unitsInOne : Nat := 1 <<< 1074

theorem isNaN_nan : nan.isNaN = true := by decide

theorem same_comm (x y : Binary64) : x.same y = y.same x := by
  simp only [same, Bool.and_comm (!x.isNaN), Bool.and_comm (x.magnitude == 0),
    BEq.comm (a := x.bits)]

end Binary64
end SavedFilter
