/-!
# Digits

Numbers are written with `Nat.toDigits` and read with `Nat.ofDigitChars`; here stand the variants
the formats need: integers, numbers with a least count of digits, and hexadecimal digits in either
case.
-/

namespace SavedFilter.Text

def tenTo (n : Nat) : Nat := Nat.pow 10 n

def decimal (n : Nat) : List Char := Nat.toDigits 10 n

def integer (n : Int) : List Char :=
  if n < 0 then '-' :: decimal n.natAbs else decimal n.natAbs

def count (n : Nat) : String := String.ofList (decimal n)

/-- `n` in decimal, with zeros in front up to `width` digits -/
def padded (width n : Nat) : List Char := (decimal n).leftpad width '0'

/-- the number that decimal digits spell -/
def ofDecimal (ds : List Char) : Nat := Nat.ofDigitChars 10 ds 0

theorem tenTo_zero : tenTo 0 = 1 := rfl
theorem tenTo_succ (n : Nat) : tenTo (n + 1) = tenTo n * 10 := rfl

theorem ofDecimal_decimal (n : Nat) : ofDecimal (decimal n) = n :=
  Nat.ofDigitChars_toDigits (by decide) (by decide)

/-- the value of a hexadecimal digit of either case -/
def hexValue? (c : Char) : Option Nat :=
  if c.isDigit then some (c.toNat - 48)
  else if 'a' ≤ c ∧ c ≤ 'f' then some (c.toNat - 87)
  else if 'A' ≤ c ∧ c ≤ 'F' then some (c.toNat - 55)
  else none

def isHex (c : Char) : Bool := (hexValue? c).isSome

/-- the last `width` hexadecimal digits of `n`, in lower case -/
def hex : (width : Nat) → (n : Nat) → List Char
  | 0, _ => []
  | width + 1, n => hex width (n / 16) ++ [Nat.digitChar (n % 16)]

def ofHex (ds : List Char) : Nat := ds.foldl (fun n c => 16 * n + (hexValue? c).getD 0) 0

def utf8Size (cs : List Char) : Nat := cs.foldl (fun n c => n + c.utf8Size) 0

end SavedFilter.Text
