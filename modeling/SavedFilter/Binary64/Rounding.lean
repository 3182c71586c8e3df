import SavedFilter.Binary64.Basic
import SavedFilter.Text.Digits

/-!
# Rounding to a double

A positive rational number goes to the nearest double, and from the middle between two doubles to
the one with an even magnitude.  Counted in units of `2^-1074` the doubles near a number form a grid
of step `2^s`, where `s` is chosen so that the quotient has 53 binary digits, or is zero for the
smallest numbers; the magnitude is then the rounded quotient with `s` in front of it, and a
quotient that is rounded up to 54 digits carries into `s` by itself.

* `roundToEven`         a quotient to the nearest natural number, a half to the even one;
* `nearestMagnitude`    the magnitude nearest to a quotient;
* `ofScientific?`       the double nearest to `digits * 10^exponent`, unless that is infinite.
-/

namespace SavedFilter.Binary64
open Text

/-- `num / den` to the nearest natural number, a half to the even one -/
def roundToEven (num den : Nat) : Nat :=
  let quotient := num / den
  let rest := num % den
  if 2 * rest < den then quotient
  else if den < 2 * rest then quotient + 1
  else quotient + quotient % 2

/-- the magnitude nearest to `num / den`; beyond the greatest finite one it is `infinite` or more -/
def nearestMagnitude (num den : Nat) : Nat :=
  let s := Nat.log2 (num * unitsInOne / den) - 52
  roundToEven (num * unitsInOne) (den <<< s) + s * exponentWeight

/-- `digits * 10 ^ exponent` as a quotient of natural numbers -/
def quotientOf (digits : Nat) (exponent : Int) : Nat × Nat :=
  match exponent with
  | .ofNat e => (digits * tenTo e, 1)
  | .negSucc e => (digits, tenTo (e + 1))

/-- at this power of ten every positive number of whole units is beyond the greatest double -/
def overflowExponent : Nat := 310

/-- the magnitude nearest to `digits * 10 ^ exponent`.  Powers of ten so great or so small that the
result is plainly infinite or zero are not computed. -/
def magnitudeOf (digits : Nat) (exponent : Int) : Nat :=
  if digits = 0 then 0
  else if overflowExponent ≤ exponent then infinite
  else if digits.log2 + 1076 < 3 * -exponent then 0
  else
    let q := quotientOf digits exponent
    nearestMagnitude q.1 q.2

/-- the double nearest to `digits * 10 ^ exponent` with the given sign, if it is finite -/
def ofScientific? (negative : Bool) (digits : Nat) (exponent : Int) : Option Binary64 :=
  let b := magnitudeOf digits exponent
  if b < infinite then some (ofMagnitude negative b) else none

def ofInt (n : Int) : Binary64 :=
  ofMagnitude (decide (n < 0)) (if n = 0 then 0 else nearestMagnitude n.natAbs 1)

theorem roundToEven_mul (n d : Nat) (h : 0 < d) : roundToEven (n * d) d = n := by
  simp [roundToEven, Nat.mul_div_cancel _ h, h]

end SavedFilter.Binary64
