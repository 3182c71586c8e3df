import SavedFilter.Calendar.DateTime
import SavedFilter.Text.Blank

/-!
# Reading dates and times

The parts of a date are read from left to right and the first failure counts.  In front of every
number blanks are passed over.  A number takes as many digits as its place has, two for all but the
year: that takes four, or any count behind a sign.  Each number is checked for its range as it is
read; whether the month has the day is only asked when the whole text has been read.
-/

namespace SavedFilter.Calendar
open Text

inductive Fault where
  | endOfText
  | invalid
  | outOfRange
  | trailing
  deriving DecidableEq, Repr

def Fault.message : Fault → String
  | .endOfText => "premature end of input"
  | .invalid => "input contains invalid characters"
  | .outOfRange => "input is out of range"
  | .trailing => "trailing input"

namespace Reader

def refuse (cs : List Char) : Fault := if cs.isEmpty then .endOfText else .invalid

def literal (l : Char) : List Char → Except Fault (List Char)
  | [] => .error .endOfText
  | c :: cs => if c = l then .ok cs else .error .invalid

/-- the digits in front, at least one and at most `width` -/
def digits (width : Nat) (cs : List Char) : Except Fault (List Char × List Char) :=
  match (cs.take width).takeWhile Char.isDigit with
  | [] => .error (refuse cs)
  | ds => .ok (ds, cs.drop ds.length)

/-- a number of at most two digits from `low` to `high` -/
def field (low high : Nat) (cs : List Char) : Except Fault (Nat × List Char) := do
  let (ds, cs) ← digits 2 (trimStart cs)
  let n := ofDecimal ds
  if low ≤ n ∧ n ≤ high then .ok (n, cs) else .error .outOfRange

/-- a year that 32 bits hold -/
def checkYear (year : Int) (cs : List Char) : Except Fault (Int × List Char) :=
  if -0x80000000 ≤ year ∧ year < 0x80000000 then .ok (year, cs) else .error .outOfRange

/-- a year; behind a sign it has any count of digits -/
def year (cs : List Char) : Except Fault (Int × List Char) :=
  match trimStart cs with
  | '-' :: cs => do
    let (ds, cs) ← digits cs.length cs
    checkYear (-(ofDecimal ds : Int)) cs
  | '+' :: cs => do
    let (ds, cs) ← digits cs.length cs
    checkYear (ofDecimal ds) cs
  | cs => do
    let (ds, cs) ← digits 4 cs
    checkYear (ofDecimal ds) cs

def dateFields (cs : List Char) : Except Fault ((Int × Nat × Nat) × List Char) := do
  let (year, cs) ← year cs
  let cs ← literal '-' cs
  let (month, cs) ← field 1 12 cs
  let cs ← literal '-' cs
  let (day, cs) ← field 1 31 cs
  .ok ((year, month, day), cs)

/-- the nanoseconds behind a point; digits after the ninth are passed over -/
def fraction : List Char → Except Fault (Nat × List Char)
  | '.' :: cs => do
    let (ds, cs) ← digits 9 cs
    .ok (ofDecimal ds * tenTo (9 - ds.length), cs.dropWhile Char.isDigit)
  | cs => .ok (0, cs)

def clock (cs : List Char) : Except Fault (Time × List Char) := do
  let (hour, cs) ← field 0 23 cs
  let cs ← literal ':' cs
  let (minute, cs) ← field 0 59 cs
  let cs ← literal ':' cs
  let (second, cs) ← field 0 60 cs
  let (nano, cs) ← fraction cs
  match Time.of? hour minute second nano with
  | some t => .ok (t, cs)
  | none => .error .outOfRange

def atEnd (cs : List Char) : Except Fault Unit :=
  if cs.isEmpty then .ok () else .error .trailing

def dateOf (fields : Int × Nat × Nat) : Except Fault Date :=
  match Date.of? fields.1 fields.2.1 fields.2.2 with
  | some d => .ok d
  | none => .error .outOfRange

end Reader

open Reader

def Date.read (cs : List Char) : Except Fault Date := do
  let (fields, cs) ← dateFields cs
  atEnd cs
  dateOf fields

def Time.read (cs : List Char) : Except Fault Time := do
  let (t, cs) ← clock cs
  atEnd cs
  .ok t

def DateTime.read (cs : List Char) : Except Fault DateTime := do
  let (fields, cs) ← dateFields cs
  let cs ← literal 'T' cs
  let (t, cs) ← clock cs
  atEnd cs
  let d ← dateOf fields
  .ok ⟨d, t⟩

/-! ## offsets

The offset begins at the last sign behind the first `T`; the date may have signs of its own. -/

namespace OffsetDateTime

inductive Fault where
  | missingTime
  | missingOffset
  | moment (f : Calendar.Fault)
  | badOffset
  | outOfRange
  deriving DecidableEq, Repr

def Fault.message : Fault → String
  | .missingTime => "missing time component"
  | .missingOffset => "missing UTC offset"
  | .moment f => f.message
  | .badOffset => "invalid UTC offset"
  | .outOfRange => "out of range"

def isSign (c : Char) : Bool := c == '+' || c == '-'

/-- the text before its last sign, and the text from that sign on -/
def splitAtLastSign? (cs : List Char) : Option (List Char × List Char) :=
  let behind := (cs.reverse.takeWhile (!isSign ·)).reverse
  match cs.reverse.dropWhile (!isSign ·) with
  | [] => none
  | sign :: before => some (before.reverse, sign :: behind)

/-- the text of the local date and time, and that of the offset -/
def split (cs : List Char) : Except Fault (List Char × List Char) :=
  let time := cs.dropWhile (· != 'T')
  if time.isEmpty then .error .missingTime
  else
    match splitAtLastSign? time with
    | none => .error .missingOffset
    | some (before, offset) => .ok (cs.takeWhile (· != 'T') ++ before, offset)

def twoDigits? (a b : Char) : Option Nat :=
  if a.isDigit && b.isDigit then some (ofDecimal [a, b]) else none

/-- the seconds that an offset without its sign spells, less than a day -/
def magnitude? : List Char → Option Nat
  | [h₁, h₂, ':', m₁, m₂] => do
    let h ← twoDigits? h₁ h₂
    let m ← twoDigits? m₁ m₂
    if h < 24 ∧ m < 60 then some (h * 3600 + m * 60) else none
  | [h₁, h₂, ':', m₁, m₂, ':', s₁, s₂] => do
    let h ← twoDigits? h₁ h₂
    let m ← twoDigits? m₁ m₂
    let s ← twoDigits? s₁ s₂
    if h < 24 ∧ m < 60 ∧ s < 60 then some (h * 3600 + m * 60 + s) else none
  | _ => none

def offset? : List Char → Option Int
  | '+' :: cs => (magnitude? cs).map fun n => (n : Int)
  | '-' :: cs => (magnitude? cs).map fun n => -(n : Int)
  | _ => none

def read (cs : List Char) : Except Fault OffsetDateTime := do
  let (before, behind) ← split cs
  let moment ← (DateTime.read before).mapError .moment
  match offset? behind with
  | none => .error .badOffset
  | some offset =>
    match of? moment offset with
    | none => .error .outOfRange
    | some d => .ok d

end OffsetDateTime
end SavedFilter.Calendar
