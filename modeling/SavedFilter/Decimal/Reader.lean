import SavedFilter.Decimal.Basic

/-!
# Reading a decimal

The plain form is an optional sign and digits with at most one point; behind the first digit an
underscore may stand anywhere.  The text is taken character by character, and the first failure
counts.  Digits behind the point that no longer fit, because the scale or the coefficient is full,
are cut off: the first of them rounds, half up, and the others are only looked at.  An underscore in
the place of the digit that rounds counts as a zero, unless the coefficient is wide (`isWide`); then
the digit behind it rounds.

A text that the plain form refuses is tried as a plain number with a power of ten behind an `e`.
-/

namespace SavedFilter.Decimal
open Text

inductive Fault where
  | empty
  | noDigits
  | twoPoints
  | leadingUnderscore
  | unknownCharacter
  | tooManyDigits
  | overflowAfterRounding
  | badExponent
  | exponentTooGreat (exponent : Nat)
  | tooGreat
  deriving DecidableEq, Repr

def Fault.message : Fault → String
  | .empty => "Invalid decimal: empty"
  | .noDigits => "Invalid decimal: no digits found"
  | .twoPoints => "Invalid decimal: two decimal points"
  | .leadingUnderscore => "Invalid decimal: must start lead with a number"
  | .unknownCharacter => "Invalid decimal: unknown character"
  | .tooManyDigits => "Invalid decimal: overflow from too many digits"
  | .overflowAfterRounding => "Invalid decimal: overflow from mantissa after rounding"
  | .badExponent => "Failed to parse"
  | .exponentTooGreat e =>
    "Scale exceeds the maximum precision allowed: " ++ count e ++ " > " ++ count maxScale
  | .tooGreat => "Number exceeds maximum value that can be represented."

/-! ## the plain form -/

def unexpected (c : Char) : Fault :=
  if c = '.' then .twoPoints
  else if c = '_' then .leadingUnderscore
  else .unknownCharacter

/-- the characters behind the digit that rounds: digits and underscores -/
def checkDropped : List Char → Except Fault Unit
  | [] => .ok ()
  | c :: cs => if c.isDigit || c == '_' then checkDropped cs else .error (unexpected c)

/-- the number that has been read; zero loses its sign -/
def finish (negative : Bool) (coefficient scale : Nat) : Except Fault Decimal :=
  if h : coefficient < coefficientLimit ∧ scale ≤ maxScale then
    .ok ⟨negative && coefficient != 0, coefficient, scale, h.1, h.2⟩
  else .error .overflowAfterRounding

/-- One added to the coefficient.  If it no longer fits, it gives up its last digit; without digits
behind the point it cannot. -/
def roundUp (coefficient scale : Nat) : Except Fault (Nat × Nat) :=
  if coefficient + 1 < coefficientLimit then .ok (coefficient + 1, scale)
  else if scale = 0 then .error .overflowAfterRounding
  else .ok ((coefficient + 5) / 10, scale - 1)

/-- The number whose next digit does not fit: `c` stands there and rounds, half up.  An underscore
counts as a zero. -/
def cutAt (negative : Bool) (coefficient scale : Nat) (c : Char) (cs : List Char) :
    Except Fault Decimal := do
  if !(c.isDigit || c == '_') then .error (unexpected c)
  let (coefficient, scale) ←
    if '5' ≤ c && c.isDigit then roundUp coefficient scale else .ok (coefficient, scale)
  checkDropped cs
  finish negative coefficient scale

/-- A coefficient is built in one word of 64 bits while it is below this; the distance to a tenth of
the word leaves room for one more digit. -/
def wordLimit : Nat := 1844674407370954906

/-- a coefficient that had outgrown the word before its last digit -/
def isWide (coefficient : Nat) : Bool := decide (wordLimit ≤ coefficient / 10)

def cutAtScale (negative : Bool) (coefficient scale : Nat) (cs : List Char) :
    Except Fault Decimal :=
  match if isWide coefficient then cs.dropWhile (· == '_') else cs with
  | [] => finish negative coefficient scale
  | c :: cs => cutAt negative coefficient scale c cs

/-- The rest of a number of which the sign and some characters have been read; `started` tells
whether there was a digit among them, `behindPoint` whether there was a point. -/
def scan (negative behindPoint started : Bool) (coefficient scale : Nat) :
    List Char → Except Fault Decimal
  | [] => if started then finish negative coefficient scale else .error .noDigits
  | c :: cs =>
    if behindPoint && maxScale ≤ scale then cutAtScale negative coefficient scale (c :: cs)
    else if c.isDigit then
      let longer := 10 * coefficient + (c.toNat - 48)
      if longer < coefficientLimit then
        scan negative behindPoint true longer (if behindPoint then scale + 1 else scale) cs
      else if behindPoint then cutAt negative coefficient scale c cs
      else .error .tooManyDigits
    else if c = '.' && !behindPoint then scan negative true started coefficient scale cs
    else if c = '_' && started then scan negative behindPoint started coefficient scale cs
    else .error (unexpected c)

def readPlain (cs : List Char) : Except Fault Decimal :=
  match cs with
  | [] => .error .empty
  | c :: rest =>
    if c = '-' then scan true false false 0 0 rest
    else if c = '+' then scan false false false 0 0 rest
    else scan false false false 0 0 cs

/-! ## powers of ten -/

def isExponentMark (c : Char) : Bool := c == 'e' || c == 'E'

/-- a number of 32 bits without sign; one `+` may stand in front -/
def readExponent? (cs : List Char) : Option Nat :=
  let ds := match cs with
    | '+' :: ds => ds
    | ds => ds
  if ds ≠ [] ∧ ds.all Char.isDigit ∧ ofDecimal ds < UInt32.size then some (ofDecimal ds) else none

/-- the coefficient without its last `n` digits, rounded by the first of them, half up -/
def dropDigits (n coefficient : Nat) : Nat :=
  match n with
  | 0 => coefficient
  | n + 1 =>
    let kept := coefficient / tenTo n
    if 5 ≤ kept % 10 then kept / 10 + 1 else kept / 10

/-- `d / 10 ^ e`: the scale grows by `e`, and digits for which it has no room are dropped -/
def shiftDown (d : Decimal) (e : Nat) : Except Fault Decimal :=
  if maxScale < e then .error (.exponentTooGreat e)
  else
    let dropped := d.scale + e - maxScale
    let coefficient := dropDigits dropped d.coefficient
    let scale := d.scale + e - dropped
    if h : coefficient < coefficientLimit ∧ scale ≤ maxScale then
      .ok ⟨d.negative, coefficient, scale, h.1, h.2⟩
    else .error .tooGreat

/-- `d * 10 ^ e`: the scale shrinks by `e`, and beyond it the coefficient grows -/
def shiftUp (d : Decimal) (e : Nat) : Except Fault Decimal :=
  if e ≤ d.scale then
    .ok ⟨d.negative, d.coefficient, d.scale - e, d.coefficient_lt,
      Nat.le_trans (Nat.sub_le d.scale e) d.scale_le⟩
  else if maxScale < e then .error (.exponentTooGreat e)
  else
    let coefficient := d.coefficient * tenTo (e - d.scale)
    if h : coefficient < coefficientLimit then
      .ok ⟨d.negative, coefficient, 0, h, Nat.zero_le maxScale⟩
    else .error .tooGreat

def readScientific (cs : List Char) : Except Fault Decimal := do
  let d ← readPlain (cs.takeWhile (!isExponentMark ·))
  match (cs.dropWhile (!isExponentMark ·)).drop 1 with
  | '-' :: ds =>
    match readExponent? ds with
    | some e => shiftDown d e
    | none => .error .badExponent
  | ds =>
    match readExponent? ds with
    | some e => shiftUp d e
    | none => .error .badExponent

def read (cs : List Char) : Except Fault Decimal :=
  match readPlain cs with
  | .ok d => .ok d
  | .error f => if cs.any isExponentMark then readScientific cs else .error f

end SavedFilter.Decimal
