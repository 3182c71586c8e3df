import SavedFilter.Text.Digits

/-!
# Decimal numbers

A decimal is a whole number of 96 bits, its *coefficient*, with a sign and with up to 28 of its
digits behind the point, its *scale*.  The scale is kept as it was written, so that `1.50` stays
different from `1.5` in text, while the two are the same number.
-/

namespace SavedFilter

def Decimal.coefficientLimit : Nat := 0x1000000000000000000000000

def Decimal.maxScale : Nat := 28

/-- a decimal number `± coefficient / 10 ^ scale` -/
structure Decimal where
  negative : Bool
  coefficient : Nat
  scale : Nat
  coefficient_lt : coefficient < Decimal.coefficientLimit
  scale_le : scale ≤ Decimal.maxScale
  deriving DecidableEq, Repr

namespace Decimal
open Text

def mantissa (d : Decimal) : Int := if d.negative then -(d.coefficient : Int) else d.coefficient

def same (a b : Decimal) : Bool :=
  a.mantissa * tenTo b.scale == b.mantissa * tenTo a.scale

/-- the decimal with this mantissa and scale, if it is one; zero has no sign -/
def ofMantissa? (mantissa : Int) (scale : Nat) : Option Decimal :=
  if h : mantissa.natAbs < coefficientLimit ∧ scale ≤ maxScale then
    some ⟨decide (mantissa < 0), mantissa.natAbs, scale, h.1, h.2⟩
  else none

/-- the digits with a point in front of the last `scale` of them -/
def point (scale : Nat) (ds : List Char) : List Char :=
  if scale = 0 then ds
  else ds.take (ds.length - scale) ++ '.' :: ds.drop (ds.length - scale)

/-- the text: all digits, with a zero in front of the point if there is no other -/
def text (d : Decimal) : List Char :=
  let digits := point d.scale (padded (d.scale + 1) d.coefficient)
  if d.negative then '-' :: digits else digits

theorem point_zero (ds : List Char) : point 0 ds = ds := rfl

theorem same_comm (a b : Decimal) : a.same b = b.same a := by
  simp only [same, BEq.comm (a := a.mantissa * _)]

end Decimal
end SavedFilter
