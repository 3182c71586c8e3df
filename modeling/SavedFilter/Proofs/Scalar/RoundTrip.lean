import SavedFilter.Proofs.Calendar.RoundTrip
import SavedFilter.Proofs.Decimal.RoundTrip
import SavedFilter.Proofs.Guid.RoundTrip
import SavedFilter.Proofs.Json.RoundTrip
import SavedFilter.Scalar.Envelope

/-!
# Values that are read back

Every value is read back from its envelope, and from the text of it:

* `canonical`     what is read: the value itself, but every NaN is the one NaN and a decimal zero
                  has no sign;
* `IsCopy`        equality of kind and of content, which tells apart what `same` does not;
* `ofLiteral_literal`, `ofText_toText`   the round trip, kind by kind and for all values.
-/

namespace SavedFilter

namespace Binary64

/-- the number itself, and the one NaN for all of them -/
def canonical (x : Binary64) : Binary64 := if x.isNaN then nan else x

theorem canonical_of_isFinite {x : Binary64} (h : x.isFinite = true) : x.canonical = x := by
  have hlt : x.magnitude < infinite := decide_eq_true_iff.mp h
  apply if_neg
  intro hnan
  exact absurd (decide_eq_true_iff.mp hnan) (Nat.lt_asymm hlt)

/-- what is neither finite nor a NaN is one of the two infinities -/
theorem eq_infinity {x : Binary64} (hf : x.isFinite = false) (hn : x.isNaN = false) :
    x = infinity x.isNegative := by
  have h1 : infinite ≤ x.magnitude := Nat.not_lt.mp (decide_eq_false_iff_not.mp hf)
  have h2 : x.magnitude ≤ infinite := Nat.not_lt.mp (decide_eq_false_iff_not.mp hn)
  rw [infinity, ← Nat.le_antisymm h2 h1, ofMagnitude_magnitude]

theorem same_canonical (x : Binary64) : x.canonical.same x = !x.isNaN := by
  unfold canonical
  cases h : x.isNaN with
  | true => simp [same, h]
  | false => simp [same, h]

end Binary64

namespace Scalar
open Calendar

def canonical : Scalar → Scalar
  | .double x => .double x.canonical
  | .decimal d => .decimal d.canonical
  | v => v

/-- the same value of the same kind.  Doubles have the same bits, or both are NaNs; decimals have
the same mantissa and scale; every other value is the same in all its parts. -/
def IsCopy : Scalar → Scalar → Prop
  | .double x, .double y => x.bits = y.bits ∨ x.isNaN = true ∧ y.isNaN = true
  | .decimal a, .decimal b => a.mantissa = b.mantissa ∧ a.scale = b.scale
  | v, w => v = w

def isNaN : Scalar → Bool
  | .double x => x.isNaN
  | _ => false

def isNegativeZero : Scalar → Bool
  | .decimal d => d.isNegativeZero
  | _ => false

theorem isCopy_canonical (v : Scalar) : v.IsCopy v.canonical := by
  cases v with
  | double x =>
    show x.bits = x.canonical.bits ∨ x.isNaN = true ∧ x.canonical.isNaN = true
    unfold Binary64.canonical
    by_cases h : x.isNaN = true
    · rw [if_pos h]
      exact .inr ⟨h, Binary64.isNaN_nan⟩
    · rw [if_neg h]
      exact .inl rfl
  | decimal d => exact ⟨d.mantissa_canonical.symm, rfl⟩
  | _ => rfl

/-- a copy is the same value, unless that is a NaN -/
theorem same_canonical (v : Scalar) : v.canonical.same v = !v.isNaN := by
  cases v with
  | double x => exact x.same_canonical
  | decimal d =>
    show (d.canonical.mantissa * _ == d.mantissa * _) = true
    rw [d.mantissa_canonical]
    exact beq_self_eq_true _
  | offsetDateTime d => exact beq_self_eq_true _
  | _ => simp [canonical, same, isNaN]

theorem isNull_canonical (v : Scalar) : v.canonical.isNull = v.isNull := by
  cases v <;> rfl

/-! ## envelopes -/

theorem int32Of_toInt (n : Int32) : int32Of (.int n.toInt) = .ok n := by
  have hlo := n.le_toInt
  have hhi := n.toInt_lt
  have h64 : int64Of? (.int n.toInt) = some n.toInt := by
    apply if_pos
    rw [Int64.toInt_minValue, Int64.toInt_maxValue]
    omega
  rw [int32Of, h64]
  refine (if_pos ⟨n.minValue_le_toInt, n.toInt_le⟩).trans ?_
  rw [Int32.ofInt_toInt]

theorem doubleOf?_doubleLiteral (x : Binary64) :
    doubleOf? (doubleLiteral x) = some x.canonical := by
  unfold doubleLiteral
  split_ifs with hf hn hs
  · rw [x.canonical_of_isFinite hf]
    rfl
  · rw [Binary64.canonical, if_pos hn]
    rfl
  · rw [Bool.not_eq_true] at hf hn
    rw [Binary64.canonical, hn, Binary64.eq_infinity hf hn, hs]
    rfl
  · rw [Bool.not_eq_true] at hf hn hs
    rw [Binary64.canonical, hn, Binary64.eq_infinity hf hn, hs]
    rfl

/-- **Every kind of literal is read back.** -/
theorem ofLiteral_literal {v : Scalar} {k : Kind} (h : v.kind? = some k) :
    ofLiteral k v.literal = .ok v.canonical := by
  cases v with
  | null => exact nomatch h
  | text s => obtain rfl := Option.some.inj h; rfl
  | bool b => obtain rfl := Option.some.inj h; rfl
  | int32 n =>
    obtain rfl := Option.some.inj h
    rw [ofLiteral, literal, int32Of_toInt]
    rfl
  | int64 n =>
    obtain rfl := Option.some.inj h
    have h64 : int64Of? (.int n.toInt) = some n.toInt := if_pos ⟨n.minValue_le_toInt, n.toInt_le⟩
    rw [ofLiteral, literal, h64]
    show Except.ok (Scalar.int64 (Int64.ofInt n.toInt)) = _
    rw [Int64.ofInt_toInt]
    rfl
  | double x =>
    obtain rfl := Option.some.inj h
    rw [ofLiteral, literal, doubleOf?_doubleLiteral]
    rfl
  | decimal d =>
    obtain rfl := Option.some.inj h
    simp only [ofLiteral, literal, textOf, String.toList_ofList, Decimal.read_text]
    rfl
  | dateTime d =>
    obtain rfl := Option.some.inj h
    simp only [ofLiteral, literal, textOf, String.toList_ofList, DateTime.read_text]
    rfl
  | offsetDateTime d =>
    obtain rfl := Option.some.inj h
    simp only [ofLiteral, literal, textOf, String.toList_ofList, OffsetDateTime.read_text]
    rfl
  | date d =>
    obtain rfl := Option.some.inj h
    simp only [ofLiteral, literal, textOf, String.toList_ofList, Date.read_text]
    rfl
  | time t =>
    obtain rfl := Option.some.inj h
    simp only [ofLiteral, literal, textOf, String.toList_ofList, Time.read_text]
    rfl
  | guid g =>
    obtain rfl := Option.some.inj h
    simp only [ofLiteral, literal, textOf, String.toList_ofList, Guid.read_text]
    rfl

theorem ofEnvelope_envelope (v : Scalar) : ofEnvelope v.envelope = .ok v.canonical := by
  cases hk : v.kind? with
  | none =>
    obtain rfl := (kind?_eq_none_iff v).mp hk
    rfl
  | some k =>
    simp only [envelope, hk, ofEnvelope, Kind.ofName?_name, ofLiteral_literal hk]
    rfl

theorem doubleLiteral_of_isNaN {x : Binary64} (h : x.isNaN = true) :
    doubleLiteral x = .str "NaN" := by
  have hf : x.isFinite = false := decide_eq_false (Nat.lt_asymm (decide_eq_true_iff.mp h))
  rw [doubleLiteral, hf, if_neg Bool.false_ne_true, if_pos h]

theorem doubleLiteral_canonical (x : Binary64) : doubleLiteral x.canonical = doubleLiteral x := by
  unfold Binary64.canonical
  split_ifs with h
  · rw [doubleLiteral_of_isNaN h, doubleLiteral_of_isNaN Binary64.isNaN_nan]
  · rfl

/-- The envelope of what is read back is the same, unless a zero has lost its sign. -/
theorem envelope_canonical_eq_iff (v : Scalar) :
    v.canonical.envelope = v.envelope ↔ v.isNegativeZero = false := by
  cases v with
  | double x =>
    refine iff_of_true ?_ rfl
    simp only [canonical, envelope, kind?, literal, doubleLiteral_canonical]
  | decimal d =>
    simp only [canonical, envelope, kind?, literal, Json.arr.injEq, List.cons.injEq, Json.str.injEq,
      String.ofList_inj, true_and, and_true]
    exact d.text_canonical_eq_iff
  | _ => exact iff_of_true (congrArg envelope rfl) rfl

/-! ## the text of an envelope -/

theorem fitsInteger_of_int64 {n : Int} (hl : -2 ^ 63 ≤ n) (hh : n < 2 ^ 63) :
    Json.FitsInteger n := by
  constructor <;> omega

theorem writable_literal (v : Scalar) : v.literal.Writable ∧ v.literal.nesting = 0 := by
  cases v with
  | int32 n =>
    have hlo := n.le_toInt
    have hhi := n.toInt_lt
    exact ⟨fitsInteger_of_int64 (by omega) (by omega), rfl⟩
  | int64 n => exact ⟨fitsInteger_of_int64 n.le_toInt n.toInt_lt, rfl⟩
  | double x =>
    rw [literal]
    unfold doubleLiteral
    split_ifs with hf
    · exact ⟨hf, rfl⟩
    all_goals exact ⟨trivial, rfl⟩
  | _ => exact ⟨trivial, rfl⟩

theorem writable_envelope (v : Scalar) : v.envelope.Writable := by
  rw [envelope]
  cases v.kind? with
  | none => trivial
  | some k => exact ⟨trivial, v.writable_literal.1, trivial⟩

theorem nesting_envelope (v : Scalar) : v.envelope.nesting ≤ 1 := by
  rw [envelope]
  cases v.kind? with
  | none => exact Nat.zero_le 1
  | some k => simp [Json.nesting, Json.nestingOfAll, v.writable_literal.2]

/-- **Every value is read back from its envelope and from the text of it**, as a copy: of the same
kind, with the same bits, mantissa and scale, digits, or date, time and offset. -/
theorem ofText_toText (v : Scalar) :
    ofEnvelope v.envelope = .ok v.canonical ∧ ofText v.toText = .ok v.canonical ∧
      v.IsCopy v.canonical := by
  have hnesting : v.envelope.nesting ≤ Json.maxNesting := le_trans v.nesting_envelope (by decide)
  refine ⟨v.ofEnvelope_envelope, ?_, v.isCopy_canonical⟩
  rw [ofText, toText, Json.parseText_compactText v.writable_envelope hnesting]
  exact v.ofEnvelope_envelope

end Scalar
end SavedFilter
