import SavedFilter.Binary64.Basic
import SavedFilter.Decimal.Basic
import SavedFilter.Calendar.DateTime
import SavedFilter.Guid.Basic

/-!
# Scalar values

The values that a condition compares with.  Values of different kinds are never equal, also where
they stand for the same number; within a kind a double, a decimal and a date with an offset are
compared by what they denote, so that equality is coarser than identity, and a NaN is not even
equal to itself.
-/

namespace SavedFilter
open Calendar

inductive Scalar where
  | null
  | text (s : String)
  | bool (b : Bool)
  | int32 (n : Int32)
  | int64 (n : Int64)
  | double (x : Binary64)
  | decimal (d : Decimal)
  | dateTime (d : DateTime)
  | offsetDateTime (d : OffsetDateTime)
  | date (d : Date)
  | time (t : Time)
  | guid (g : Guid)
  deriving DecidableEq, Repr

namespace Scalar

inductive Kind where
  | text
  | bool
  | int32
  | int64
  | double
  | decimal
  | dateTime
  | offsetDateTime
  | date
  | time
  | guid
  deriving DecidableEq, Repr

namespace Kind

def name : Kind → String
  | .text => "string"
  | .bool => "bool"
  | .int32 => "int32"
  | .int64 => "int64"
  | .double => "double"
  | .decimal => "decimal"
  | .dateTime => "datetime"
  | .offsetDateTime => "datetimeoffset"
  | .date => "date"
  | .time => "time"
  | .guid => "guid"

def all : List Kind :=
  [.text, .bool, .int32, .int64, .double, .decimal, .dateTime, .offsetDateTime, .date, .time,
    .guid]

def ofName? (s : String) : Option Kind := all.find? (·.name == s)

theorem ofName?_name (k : Kind) : ofName? k.name = some k := by cases k <;> rfl

end Kind

/-- the kind of a value; null has none -/
def kind? : Scalar → Option Kind
  | .null => none
  | .text _ => some .text
  | .bool _ => some .bool
  | .int32 _ => some .int32
  | .int64 _ => some .int64
  | .double _ => some .double
  | .decimal _ => some .decimal
  | .dateTime _ => some .dateTime
  | .offsetDateTime _ => some .offsetDateTime
  | .date _ => some .date
  | .time _ => some .time
  | .guid _ => some .guid

def typeName (v : Scalar) : String :=
  match v.kind? with
  | some k => k.name
  | none => "null"

def isNull : Scalar → Bool
  | .null => true
  | _ => false

def text? : Scalar → Option String
  | .text s => some s
  | _ => none

/-- equality of what the values denote -/
def same : Scalar → Scalar → Bool
  | .double x, .double y => x.same y
  | .decimal a, .decimal b => a.same b
  | .offsetDateTime a, .offsetDateTime b => a.same b
  | a, b => decide (a = b)

theorem isNull_iff (v : Scalar) : v.isNull = true ↔ v = .null := by cases v <;> simp [isNull]
theorem kind?_eq_none_iff (v : Scalar) : v.kind? = none ↔ v = .null := by cases v <;> simp [kind?]

end Scalar
end SavedFilter
