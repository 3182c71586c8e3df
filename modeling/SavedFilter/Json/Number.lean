import SavedFilter.Binary64.Shortest
import SavedFilter.Json.Basic

/-!
# The text of a number

An integer is written in decimal.  A finite double is written with its shortest digits: with a
point and at least one decimal from `10^-5` up to `10^16`, beyond these with one digit in front of
the point and an exponent that always has a sign.  JSON has no text for a NaN or an infinity.

A `Numeral` is the text of a number taken apart; `Numeral.value?` is the number it stands for.  No
point halfway between two doubles has more than 767 digits, so of a longer number the first 768
digits tell the nearest double, with a one behind them in the place of all others.
-/

namespace SavedFilter.Json
open Text

/-- the digits without the zeros at the end -/
def significant (ds : List Char) : List Char := (ds.reverse.dropWhile (· == '0')).reverse

/-- the text of a number, taken apart -/
structure Numeral where
  negative : Bool
  whole : List Char
  fraction : Option (List Char)
  /-- the sign of the exponent, true for minus, and its digits -/
  exponent : Option (Bool × List Char)
  deriving DecidableEq, Repr

namespace Numeral

def power (n : Numeral) : Int :=
  match n.exponent with
  | none => 0
  | some (true, ds) => -(ofDecimal ds : Int)
  | some (false, ds) => ofDecimal ds

def fractionDigits (n : Numeral) : List Char := n.fraction.getD []

/-- The digits of the coefficient.  The zeros at either end of a fraction do not count, but those
at the end of the whole part do. -/
def coefficient (n : Numeral) : List Char :=
  (n.whole ++ significant n.fractionDigits).dropWhile (· == '0')

/-- the power of ten of the last digit of the coefficient -/
def scale (n : Numeral) : Int := n.power - (significant n.fractionDigits).length

/-- the greatest number of digits that count -/
def maxDigits : Nat := 768

/-- The nearest double, if it is finite.  A number with more than `maxDigits` digits is taken to be
greater than its first ones say, also if zeros of its whole part are all that follows them. -/
def double? (n : Numeral) : Option Binary64 :=
  let ds := n.coefficient
  if ds.length ≤ maxDigits then Binary64.ofScientific? n.negative (ofDecimal ds) n.scale
  else
    Binary64.ofScientific? n.negative (ofDecimal (ds.take maxDigits ++ ['1']))
      (n.scale + (ds.length - maxDigits - 1 : Nat))

def isPlain (n : Numeral) : Bool := n.fraction.isNone && n.exponent.isNone

/-- the integer a plain numeral stands for, unless it is a negative zero or takes over 64 bits -/
def int? (n : Numeral) : Option Int :=
  let m := ofDecimal n.whole
  if !n.isPlain then none
  else if n.negative then if 0 < m ∧ m ≤ 0x8000000000000000 then some (-(m : Int)) else none
  else if m < UInt64.size then some m else none

/-- an integer if there is one, else the nearest finite double -/
def value? (n : Numeral) : Option Json :=
  match n.int? with
  | some i => some (.int i)
  | none => n.double?.map .double

end Numeral

/-! ## writing -/

/-- the least power of ten of a leading digit that is written without exponent -/
def plainFrom : Int := -5

/-- the least power of ten of a leading digit that is written with exponent again -/
def plainBelow : Int := 16

/-- the digits `ds`, the first of them at the power `k` of ten -/
def layout (ds : List Char) (k : Int) : List Char :=
  if plainFrom ≤ k ∧ k < plainBelow then
    match k with
    | .ofNat k =>
      if ds.length ≤ k + 1 then ds ++ List.replicate (k + 1 - ds.length) '0' ++ ['.', '0']
      else ds.take (k + 1) ++ '.' :: ds.drop (k + 1)
    | .negSucc k => '0' :: '.' :: List.replicate k '0' ++ ds
  else
    let mantissa := match ds with
      | [] => []
      | [d] => [d]
      | d :: rest => d :: '.' :: rest
    mantissa ++ 'e' :: (if k < 0 then '-' else '+') :: decimal k.natAbs

def magnitudeText (b : Nat) : List Char :=
  if b = 0 then ['0', '.', '0']
  else
    let d := Binary64.shortest b
    let ds := decimal d.digits
    layout (significant ds) (d.exponent + ds.length - 1)

def doubleText (x : Binary64) : List Char :=
  if x.isNegative then '-' :: magnitudeText x.magnitude else magnitudeText x.magnitude

end SavedFilter.Json
