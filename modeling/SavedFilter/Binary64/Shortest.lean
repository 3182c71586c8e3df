import SavedFilter.Binary64.Rounding

/-!
# The shortest digits of a double

A finite double is written with as few significant digits as read back as that same double, and of
the numbers with so few digits with the nearest one.  If a grid of numbers with `n` digits has a
point that reads back, then so does one of the two points of the grid around the double; it
therefore suffices to try these two for `n = 1, 2, …, 17`.  Should none of them read back, all
digits of the exact value are taken.
-/

namespace SavedFilter.Binary64
open Text

structure Decimals where
  digits : Nat
  exponent : Int
  deriving DecidableEq, Repr

/-- the power of ten of the first digit of `num / den` -/
def leadingExponent (num den : Nat) : Int :=
  if den ≤ num then (decimal (num / den)).length - 1 else -(decimal ((den - 1) / num)).length

/-- a decimal number that reads back as the magnitude `b` -/
def readsBack (b : Nat) (d : Decimals) : Bool := magnitudeOf d.digits d.exponent == b

/-- the magnitude `b` as a quotient on the grid of step `10 ^ exponent` -/
def onGrid (b : Nat) (exponent : Int) : Nat × Nat :=
  match exponent with
  | .ofNat e => (units b, unitsInOne * tenTo e)
  | .negSucc e => (units b * tenTo (e + 1), unitsInOne)

/-- the two numbers with `n` digits around the magnitude `b`, the nearer one in front -/
def around (b n : Nat) : List Decimals :=
  let exponent := leadingExponent (units b) unitsInOne - n + 1
  let quotient := onGrid b exponent
  let below := quotient.1 / quotient.2
  let nearest := roundToEven quotient.1 quotient.2
  [⟨nearest, exponent⟩, ⟨if nearest = below then below + 1 else below, exponent⟩]

/-- of the two numbers with `n` digits around the magnitude `b`, the nearest that reads back -/
def withDigits? (b n : Nat) : Option Decimals := (around b n).find? (readsBack b)

/-- every digit of the magnitude `b` -/
def exact (b : Nat) : Decimals := ⟨units b * Nat.pow 5 1074, -1074⟩

/-- the first of `f n, f (n + 1), …, f (n + k - 1)` that there is, and `other` if there is none -/
def firstFrom (f : Nat → Option Decimals) (other : Decimals) : (n k : Nat) → Decimals
  | _, 0 => other
  | n, k + 1 =>
    match f n with
    | some d => d
    | none => firstFrom f other (n + 1) k

/-- the shortest decimal number that reads back as the magnitude `b` -/
def shortest (b : Nat) : Decimals :=
  if b = 0 then ⟨0, 0⟩ else firstFrom (withDigits? b) (exact b) 1 17

theorem readsBack_of_withDigits? {b n : Nat} {d : Decimals} (h : withDigits? b n = some d) :
    readsBack b d = true :=
  List.find?_some h

end SavedFilter.Binary64
