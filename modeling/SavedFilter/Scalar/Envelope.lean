import SavedFilter.Json.Printer
import SavedFilter.Json.Reader
import SavedFilter.Scalar.Basic
import SavedFilter.Decimal.Reader
import SavedFilter.Calendar.Reader
import SavedFilter.Guid.Reader

/-!
# Envelopes

JSON does not tell an `int32` from an `int64`, nor a date from a text.  In a document every value
other than null is therefore an array of two items, the name of its kind and a literal
(`envelope`).  Reading an envelope never guesses: a value without one, a name that is not known and
a literal that does not fit its kind are errors (`ofEnvelope`).

A double that JSON has no number for is the text `NaN`, `Infinity` or `-Infinity`.
-/

namespace SavedFilter.Scalar
open Calendar

/-- why a literal does not fit its kind -/
inductive LiteralFault where
  /-- JSON of a kind that no literal of this type has -/
  | unexpected (kind : String)
  | outOfRange (n : Int)
  | decimal (f : Decimal.Fault)
  | calendar (f : Calendar.Fault)
  | offset (f : OffsetDateTime.Fault)
  | guid (f : Guid.Fault)
  deriving DecidableEq, Repr

def LiteralFault.message : LiteralFault → String
  | .unexpected kind => "unexpected " ++ kind ++ " literal"
  | .outOfRange n => String.ofList (Text.integer n) ++ " is out of range"
  | .decimal f => f.message
  | .calendar f => f.message
  | .offset f => f.message
  | .guid f => f.message

inductive EnvelopeFault where
  /-- a value without an envelope -/
  | bare (kind : String)
  /-- an array that does not have two items -/
  | itemCount (n : Nat)
  | object
  /-- a text that is not JSON at all -/
  | notJson
  /-- a first item that is no string -/
  | tagKind (kind : String)
  | unknownType (tag : String)
  | literal (kind : Kind) (fault : LiteralFault)
  deriving DecidableEq, Repr

namespace EnvelopeFault

def malformed (found : String) : String :=
  "Malformed envelope: expected a 2-element array, got " ++ found

def message : EnvelopeFault → String
  | .bare kind => "Bare " ++ kind ++ " value has no type envelope"
  | .itemCount n => malformed (Text.count n ++ " elements")
  | .object => malformed "an object"
  | .notJson => malformed "invalid JSON"
  | .tagKind kind => "Envelope type tag must be a string, got " ++ kind
  | .unknownType tag => "Unknown value type: " ++ tag
  | .literal k f => "Invalid " ++ k.name ++ " literal: " ++ f.message

end EnvelopeFault

/-! ## writing -/

def doubleLiteral (x : Binary64) : Json :=
  if x.isFinite then .double x
  else if x.isNaN then .str "NaN"
  else if x.isNegative then .str "-Infinity"
  else .str "Infinity"

/-- the second item of the envelope -/
def literal : Scalar → Json
  | .null => .null
  | .text s => .str s
  | .bool b => .bool b
  | .int32 n => .int n.toInt
  | .int64 n => .int n.toInt
  | .double x => doubleLiteral x
  | .decimal d => .str (String.ofList d.text)
  | .dateTime d => .str (String.ofList d.text)
  | .offsetDateTime d => .str (String.ofList d.text)
  | .date d => .str (String.ofList d.text)
  | .time t => .str (String.ofList t.text)
  | .guid g => .str (String.ofList g.text)

def envelope (v : Scalar) : Json :=
  match v.kind? with
  | none => .null
  | some k => .arr [.str k.name, v.literal]

/-! ## reading -/

/-- the integer that a literal stands for, if 64 bits with a sign hold it -/
def int64Of? : Json → Option Int
  | .int n => if Int64.minValue.toInt ≤ n ∧ n ≤ Int64.maxValue.toInt then some n else none
  | _ => none

def doubleOf? : Json → Option Binary64
  | .int n => some (.ofInt n)
  | .double x => some x
  | .str s =>
    if s = "NaN" then some .nan
    else if s = "Infinity" then some (.infinity false)
    else if s = "-Infinity" then some (.infinity true)
    else none
  | _ => none

def int32Of (v : Json) : Except LiteralFault Int32 :=
  match int64Of? v with
  | none => .error (.unexpected v.kind)
  | some n =>
    if Int32.minValue.toInt ≤ n ∧ n ≤ Int32.maxValue.toInt then .ok (Int32.ofInt n)
    else .error (.outOfRange n)

/-- a literal that is a text, read by `read` -/
def textOf {α : Type} (read : String → Except LiteralFault α) (v : Json) :
    Except LiteralFault α :=
  match v with
  | .str s => read s
  | v => .error (.unexpected v.kind)

/-- a literal that some function reads or else has the wrong kind of JSON -/
def orUnexpected {α : Type} (v : Json) (r : Option α) : Except LiteralFault α :=
  match r with
  | some x => .ok x
  | none => .error (.unexpected v.kind)

def boolOf? : Json → Option Bool
  | .bool b => some b
  | _ => none

def ofLiteral (k : Kind) (v : Json) : Except LiteralFault Scalar :=
  match k with
  | .text => (textOf .ok v).map .text
  | .bool => (orUnexpected v (boolOf? v)).map .bool
  | .int32 => (int32Of v).map .int32
  | .int64 => (orUnexpected v (int64Of? v)).map fun n => .int64 (Int64.ofInt n)
  | .double => (orUnexpected v (doubleOf? v)).map .double
  | .decimal => (textOf (fun s => (Decimal.read s.toList).mapError .decimal) v).map .decimal
  | .dateTime => (textOf (fun s => (DateTime.read s.toList).mapError .calendar) v).map .dateTime
  | .offsetDateTime =>
    (textOf (fun s => (OffsetDateTime.read s.toList).mapError .offset) v).map .offsetDateTime
  | .date => (textOf (fun s => (Date.read s.toList).mapError .calendar) v).map .date
  | .time => (textOf (fun s => (Time.read s.toList).mapError .calendar) v).map .time
  | .guid => (textOf (fun s => (Guid.read s.toList).mapError .guid) v).map .guid

def ofEnvelope : Json → Except EnvelopeFault Scalar
  | .null => .ok .null
  | .arr [.str tag, v] =>
    match Kind.ofName? tag with
    | some k => (ofLiteral k v).mapError (.literal k)
    | none => .error (.unknownType tag)
  | .arr [tag, _] => .error (.tagKind tag.kind)
  | .arr items => .error (.itemCount items.length)
  | .obj _ => .error .object
  | v => .error (.bare v.kind)

def toText (v : Scalar) : String := v.envelope.compactText

def ofText (s : String) : Except EnvelopeFault Scalar :=
  match Json.parseText s with
  | .ok v => ofEnvelope v
  | .error _ => .error .notJson

end SavedFilter.Scalar
