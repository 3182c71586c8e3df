import SavedFilter.Proofs.Json.Rationals
import SavedFilter.Proofs.Json.RoundTrip
import SavedFilter.Proofs.Scalar.Literals

/-!
# Literals of integers

Which numbers are literals of the two kinds of integers, and what they are read as:

* `ofText_envelopeText`       an envelope is read as the literal in it;
* `ofLiteral_int32_eq_error`  what 32 bits do not hold is out of range if 64 bits hold it;
* `int64Of?_eq_some_iff`      a number is an integer of 64 bits if and only if it is written as one;
* `integer_exactness`         the envelopes of all numbers that are not too great for a double.
-/

namespace SavedFilter
open Text

/-! ## envelopes of numbers -/

namespace Json

/-- the texts of a number: a minus sign or no sign, and then digits -/
def Numeral.IsText (n : Numeral) (cs : List Char) : Prop :=
  ∃ ds, n.Spells ds ∧ cs = signed n.negative ds

theorem value_numeral {n : Numeral} {cs rest : List Char} (hn : n.IsText cs) {v : Json}
    (hv : n.value? = some v) (h : Stops continuesNumber rest) {fuel depth : Nat} :
    Reader.value fuel depth (cs ++ rest) = .ok (v, rest) := by
  obtain ⟨ds, hds, rfl⟩ := hn
  have hsign : signed n.negative ds ++ rest = signed n.negative (ds ++ rest) := by
    cases n.negative <;> rfl
  rw [hsign]
  exact value_signed (number_spelled hds hv h)

end Json

namespace Scalar
open Json Binary64

/-- the text of an envelope, without white space -/
def envelopeText (k : Kind) (literal : List Char) : String :=
  "[\"" ++ k.name ++ "\"," ++ String.ofList literal ++ "]"

theorem toList_envelopeText (k : Kind) (literal : List Char) :
    (envelopeText k literal).toList =
      '[' :: (quoted k.name ++ ',' :: (literal ++ [']'])) := by
  have hname : k.name.toList.flatMap escape = k.name.toList := by cases k <;> decide
  simp [envelopeText, quoted, hname]

/-- a literal that is read in front of a bracket is read in its envelope -/
theorem ofText_envelopeText {k : Kind} {literal : List Char} {v : Json}
    (hv : ∀ fuel depth, Reader.value fuel depth (literal ++ [']']) = .ok (v, [']'])) :
    ofText (envelopeText k literal) = (ofLiteral k v).mapError (.literal k) := by
  have hparse : parseText (envelopeText k literal) = .ok (.arr [.str k.name, v]) := by
    have htwo : 2 ≤ (envelopeText k literal).toList.length := by
      rw [toList_envelopeText, List.length_cons, List.length_append, List.length_cons]
      omega
    obtain ⟨fuel, hfuel⟩ := Nat.exists_eq_add_of_le' htwo
    have hname : Reader.value (fuel + 3) 126 (quoted k.name ++ ',' :: (literal ++ [']'])) =
        .ok (.str k.name, ',' :: (literal ++ [']'])) := value_quoted k.name
    have hitems : Reader.items (Reader.value (fuel + 3) 126) (fuel + 3)
        (quoted k.name ++ ',' :: (literal ++ [']'])) = .ok ([.str k.name, v], []) := by
      rw [items_of_value hname,
        moreItems_comma (List.forall_mem_nil _) ((value_skipSpace _).trans hname),
        moreItems_close (List.forall_mem_nil _) (hv _ _)]
      rfl
    rw [parseText, parse, hfuel, toList_envelopeText]
    show ((Reader.items _ _ _).map _ >>= _) = _
    rw [hitems]
    rfl
  rw [ofText, hparse]
  exact ofEnvelope_named k v

/-! ## integers of 64 and of 32 bits -/

section
variable {v : Json} {w : Scalar} {f : LiteralFault}

theorem range_of_int64Of? {i : Int} (h : int64Of? v = some i) : -2 ^ 63 ≤ i ∧ i < 2 ^ 63 := by
  cases v with
  | int n =>
    obtain ⟨⟨hlow, hhigh⟩, hn⟩ := Option.ite_none_right_eq_some.mp h
    obtain rfl := Option.some.inj hn
    rw [Int64.toInt_minValue] at hlow
    rw [Int64.toInt_maxValue] at hhigh
    omega
  | _ => cases h

theorem ofLiteral_int64_eq_ok :
    ofLiteral .int64 v = .ok w ↔ ∃ i : Int64, int64Of? v = some i.toInt ∧ w = .int64 i := by
  cases hv : int64Of? v with
  | none => simp [ofLiteral, orUnexpected, hv, Except.map]
  | some n =>
    obtain ⟨hlow, hhigh⟩ := range_of_int64Of? hv
    have htoInt : (Int64.ofInt n).toInt = n := Int64.toInt_ofInt_of_le hlow hhigh
    have hread : ofLiteral .int64 v = .ok (.int64 (Int64.ofInt n)) := by
      rw [ofLiteral, hv]
      rfl
    rw [hread]
    constructor
    · intro h
      exact ⟨_, congrArg some htoInt.symm, (Except.ok.inj h).symm⟩
    · rintro ⟨i, hi, rfl⟩
      rw [Option.some.inj hi, Int64.ofInt_toInt]

theorem ofLiteral_int64_eq_error :
    ofLiteral .int64 v = .error f ↔ int64Of? v = none ∧ f = .unexpected v.kind := by
  cases hv : int64Of? v <;> simp [ofLiteral, orUnexpected, hv, Except.map, eq_comm]

theorem int32Of_eq (v : Json) : int32Of v =
    match int64Of? v with
    | none => .error (.unexpected v.kind)
    | some n =>
      if -2 ^ 31 ≤ n ∧ n < 2 ^ 31 then .ok (Int32.ofInt n) else .error (.outOfRange n) := by
  rw [int32Of]
  cases int64Of? v with
  | none => rfl
  | some n =>
    have hrange : Int32.minValue.toInt ≤ n ∧ n ≤ Int32.maxValue.toInt ↔
        -2 ^ 31 ≤ n ∧ n < 2 ^ 31 := by
      rw [Int32.toInt_minValue, Int32.toInt_maxValue]
      omega
    simp only [hrange]

theorem ofLiteral_int32_eq_ok :
    ofLiteral .int32 v = .ok w ↔ ∃ i : Int32, int64Of? v = some i.toInt ∧ w = .int32 i := by
  rw [ofLiteral, map_eq_ok, int32Of_eq]
  cases hv : int64Of? v with
  | none => simp
  | some n =>
    dsimp only
    split
    · next h =>
      have htoInt : (Int32.ofInt n).toInt = n := Int32.toInt_ofInt_of_le h.1 h.2
      constructor
      · rintro ⟨i, hi, rfl⟩
        obtain rfl := Except.ok.inj hi
        exact ⟨_, congrArg some htoInt.symm, rfl⟩
      · rintro ⟨i, hi, rfl⟩
        rw [Option.some.inj hi, Int32.ofInt_toInt]
        exact ⟨i, rfl, rfl⟩
    · next h =>
      constructor
      · rintro ⟨i, hi, -⟩
        cases hi
      · rintro ⟨i, hi, -⟩
        rw [Option.some.inj hi] at h
        exact absurd ⟨i.le_toInt, i.toInt_lt⟩ h

/-- what 32 bits do not hold is refused as out of range if 64 bits hold it -/
theorem ofLiteral_int32_eq_error (h : ofLiteral .int32 v = .error f) :
    (∃ i : Int64, ofLiteral .int64 v = .ok (.int64 i) ∧ f = .outOfRange i.toInt) ∨
      (∀ w, ofLiteral .int64 v ≠ .ok w) ∧ f = .unexpected v.kind := by
  rw [ofLiteral, map_eq_error, int32Of_eq] at h
  cases hv : int64Of? v with
  | none =>
    rw [hv] at h
    refine .inr ⟨fun w hw => ?_, (Except.error.inj h).symm⟩
    obtain ⟨i, hi, -⟩ := ofLiteral_int64_eq_ok.mp hw
    rw [hv] at hi
    cases hi
  | some n =>
    rw [hv] at h
    dsimp only at h
    split_ifs at h
    obtain ⟨hlow, hhigh⟩ := range_of_int64Of? hv
    have htoInt : (Int64.ofInt n).toInt = n := Int64.toInt_ofInt_of_le hlow hhigh
    refine .inl ⟨Int64.ofInt n, ofLiteral_int64_eq_ok.mpr ⟨_, ?_, rfl⟩, ?_⟩
    · rw [hv, htoInt]
    · rw [htoInt]
      exact (Except.error.inj h).symm

end

/-! ## numbers that are integers -/

section
variable {n : Numeral} {v : Json} (hn : n.IsWritten) (hv : n.value? = some v)
include hv

theorem kind_of_value? : v.kind = "number" := by
  unfold Numeral.value? at hv
  split at hv
  · rw [← Option.some.inj hv]
    rfl
  · obtain ⟨x, -, rfl⟩ := Option.map_eq_some_iff.mp hv
    rfl

include hn

/-- **A number is an integer of 64 bits if and only if it is written as one.** -/
theorem int64Of?_eq_some_iff {i : Int} : int64Of? v = some i ↔
    n.IsInteger ∧ (i : ℚ) = n.toRat ∧ -2 ^ 63 ≤ i ∧ i < 2 ^ 63 := by
  have hfits : -2 ^ 63 ≤ i → i < 2 ^ 63 → FitsInteger i := by
    unfold FitsInteger
    omega
  unfold Numeral.value? at hv
  split at hv
  · next j hj =>
    obtain rfl := Option.some.inj hv
    obtain ⟨hinteger, hrat, -⟩ := (Numeral.int?_eq_some_iff hn).mp hj
    constructor
    · intro hi
      obtain ⟨hlow, hhigh⟩ := range_of_int64Of? hi
      obtain ⟨-, hij⟩ := Option.ite_none_right_eq_some.mp hi
      obtain rfl := Option.some.inj hij
      exact ⟨hinteger, hrat, hlow, hhigh⟩
    · rintro ⟨-, hi, hlow, hhigh⟩
      obtain rfl : i = j := by exact_mod_cast hi.trans hrat.symm
      apply if_pos
      rw [Int64.toInt_minValue, Int64.toInt_maxValue]
      omega
  · next hnone =>
    obtain ⟨x, -, rfl⟩ := Option.map_eq_some_iff.mp hv
    refine iff_of_false (by simp [int64Of?]) ?_
    rintro ⟨hinteger, hi, hlow, hhigh⟩
    have hsome := (Numeral.int?_eq_some_iff hn).mpr ⟨hinteger, hi, hfits hlow hhigh⟩
    rw [hnone] at hsome
    cases hsome

end

section
variable {n : Numeral} {token : List Char} (htoken : n.IsText token)
  (hfinite : |n.toRat| < finiteLimit)
include htoken hfinite

/-- a number that is not too great is read, and then as a literal of the kind in front of it -/
theorem exists_ofText_eq : ∃ v, n.value? = some v ∧
    ∀ k, ofText (envelopeText k token) = (ofLiteral k v).mapError (.literal k) := by
  obtain ⟨ds, hspells, -⟩ := id htoken
  rw [Numeral.abs_toRat, ← Numeral.isSome_value?_iff hspells.1] at hfinite
  obtain ⟨v, hv⟩ := Option.isSome_iff_exists.mp hfinite
  refine ⟨v, hv, fun k => ofText_envelopeText fun fuel depth => ?_⟩
  exact value_numeral htoken hv (stops_cons _ rfl)

theorem ofText_int64_eq_ok {w : Scalar} : ofText (envelopeText .int64 token) = .ok w ↔
    ∃ i : Int64, (n.IsInteger ∧ (i.toInt : ℚ) = n.toRat) ∧ w = .int64 i := by
  obtain ⟨v, hv, htext⟩ := exists_ofText_eq htoken hfinite
  obtain ⟨ds, hspells, -⟩ := htoken
  rw [htext, mapError_eq_ok, ofLiteral_int64_eq_ok]
  simp only [int64Of?_eq_some_iff hspells.1 hv, Int64.le_toInt, Int64.toInt_lt, and_true]

theorem ofText_int32_eq_ok {w : Scalar} : ofText (envelopeText .int32 token) = .ok w ↔
    ∃ i : Int32, (n.IsInteger ∧ (i.toInt : ℚ) = n.toRat) ∧ w = .int32 i := by
  obtain ⟨v, hv, htext⟩ := exists_ofText_eq htoken hfinite
  obtain ⟨ds, hspells, -⟩ := htoken
  have hrange : ∀ i : Int32, -2 ^ 63 ≤ i.toInt ∧ i.toInt < 2 ^ 63 := by
    intro i
    have hlow := i.le_toInt
    have hhigh := i.toInt_lt
    omega
  rw [htext, mapError_eq_ok, ofLiteral_int32_eq_ok]
  simp only [int64Of?_eq_some_iff hspells.1 hv, hrange, and_true]

end

/-- a text is read if and only if it is written as an integer and there is a word of its number -/
theorem exists_word_iff {n : Numeral} {text : String} {α : Type} {toInt : α → Int}
    {wrap : α → Scalar} {low high : Int}
    (hread : ∀ w, ofText text = .ok w ↔
      ∃ a, (n.IsInteger ∧ (toInt a : ℚ) = n.toRat) ∧ w = wrap a)
    (hrange : ∀ i, (∃ a, toInt a = i) ↔ low ≤ i ∧ i ≤ high) :
    (∃ w, ofText text = .ok w) ↔ n.IsInteger ∧ (low : ℚ) ≤ n.toRat ∧ n.toRat ≤ high := by
  constructor
  · rintro ⟨w, hw⟩
    obtain ⟨a, ⟨hinteger, ha⟩, -⟩ := (hread w).mp hw
    obtain ⟨hlow, hhigh⟩ := (hrange (toInt a)).mp ⟨a, rfl⟩
    rw [← ha]
    exact ⟨hinteger, by exact_mod_cast hlow, by exact_mod_cast hhigh⟩
  · rintro ⟨hinteger, hlow, hhigh⟩
    have hplain : n.isPlain = true :=
      Numeral.isPlain_iff.mpr ⟨hinteger.fraction, hinteger.exponent⟩
    have hrat := Numeral.toRat_of_plain hplain
    rw [hrat] at hlow hhigh
    obtain ⟨a, ha⟩ := (hrange _).mpr ⟨by exact_mod_cast hlow, by exact_mod_cast hhigh⟩
    exact ⟨wrap a, (hread _).mpr ⟨a, ⟨hinteger, by rw [hrat, ha]⟩, rfl⟩⟩

theorem exists_int64_iff (i : Int) : (∃ a : Int64, a.toInt = i) ↔ -2 ^ 63 ≤ i ∧ i ≤ 2 ^ 63 - 1 := by
  constructor
  · rintro ⟨a, rfl⟩
    exact ⟨a.le_toInt, Int.le_sub_one_of_lt a.toInt_lt⟩
  · rintro ⟨hlow, hhigh⟩
    exact ⟨_, Int64.toInt_ofInt_of_le hlow (Int.lt_of_le_sub_one hhigh)⟩

theorem exists_int32_iff (i : Int) : (∃ a : Int32, a.toInt = i) ↔ -2 ^ 31 ≤ i ∧ i ≤ 2 ^ 31 - 1 := by
  constructor
  · rintro ⟨a, rfl⟩
    exact ⟨a.le_toInt, Int.le_sub_one_of_lt a.toInt_lt⟩
  · rintro ⟨hlow, hhigh⟩
    exact ⟨_, Int32.toInt_ofInt_of_le hlow (Int.lt_of_le_sub_one hhigh)⟩

/-- **How exactly an integer is read.**  A number that is not too great for a double is a literal of
an integer if and only if it is written without a fraction and an exponent, is not the zero with a
minus sign, and lies in the range of the kind.  It is then read as exactly that number.  Every other
number is refused as no literal of the kind, but one that 64 bits hold and 32 bits do not is out of
range. -/
theorem integer_exactness {n : Numeral} {token : List Char} (htoken : n.IsText token)
    (hfinite : |n.toRat| < finiteLimit) :
    ((∃ v, ofText (envelopeText .int64 token) = .ok v) ↔
      n.IsInteger ∧ -2 ^ 63 ≤ n.toRat ∧ n.toRat ≤ 2 ^ 63 - 1) ∧
    ((∃ v, ofText (envelopeText .int32 token) = .ok v) ↔
      n.IsInteger ∧ -2 ^ 31 ≤ n.toRat ∧ n.toRat ≤ 2 ^ 31 - 1) ∧
    (∀ v, ofText (envelopeText .int64 token) = .ok v →
      ∃ i : Int64, v = .int64 i ∧ (i.toInt : ℚ) = n.toRat) ∧
    (∀ v, ofText (envelopeText .int32 token) = .ok v →
      ∃ i : Int32, v = .int32 i ∧ (i.toInt : ℚ) = n.toRat) ∧
    (∀ f, ofText (envelopeText .int64 token) = .error f →
      ∃ fault, f = .literal .int64 fault ∧ fault.message = "unexpected number literal") ∧
    (∀ f, ofText (envelopeText .int32 token) = .error f →
      ∃ fault, f = .literal .int32 fault ∧
        ((∃ i : Int64, ofText (envelopeText .int64 token) = .ok (.int64 i) ∧
            fault.message = String.ofList (integer i.toInt) ++ " is out of range") ∨
          ((∀ v, ofText (envelopeText .int64 token) ≠ .ok v) ∧
            fault.message = "unexpected number literal"))) := by
  have hint64 (w) := ofText_int64_eq_ok (w := w) htoken hfinite
  have hint32 (w) := ofText_int32_eq_ok (w := w) htoken hfinite
  obtain ⟨v, hv, htext⟩ := exists_ofText_eq htoken hfinite
  have hkind : v.kind = "number" := kind_of_value? hv
  refine ⟨?_, ?_, ?_, ?_, ?_, ?_⟩
  · exact_mod_cast exists_word_iff hint64 exists_int64_iff
  · exact_mod_cast exists_word_iff hint32 exists_int32_iff
  · intro w hw
    obtain ⟨i, ⟨-, hi⟩, rfl⟩ := (hint64 w).mp hw
    exact ⟨i, rfl, hi⟩
  · intro w hw
    obtain ⟨i, ⟨-, hi⟩, rfl⟩ := (hint32 w).mp hw
    exact ⟨i, rfl, hi⟩
  · intro f hf
    rw [htext, mapError_eq_error] at hf
    obtain ⟨fault, hfault, rfl⟩ := hf
    obtain ⟨-, rfl⟩ := ofLiteral_int64_eq_error.mp hfault
    refine ⟨_, rfl, ?_⟩
    rw [hkind]
    rfl
  · intro f hf
    rw [htext, mapError_eq_error] at hf
    obtain ⟨fault, hfault, rfl⟩ := hf
    refine ⟨fault, rfl, ?_⟩
    simp only [htext]
    rcases ofLiteral_int32_eq_error hfault with ⟨i, hi, rfl⟩ | ⟨hnone, rfl⟩
    · left
      refine ⟨i, ?_, rfl⟩
      rw [hi]
      rfl
    · right
      refine ⟨fun w hw => hnone w (mapError_eq_ok.mp hw), ?_⟩
      rw [hkind]
      rfl

/-- the least integer of 64 bits, which 32 bits do not hold -/
theorem integer_exactness_least :
    (∃ i : Int64, ofText (envelopeText .int64 "-9223372036854775808".toList) = .ok (.int64 i) ∧
      i.toInt = -9223372036854775808) ∧
    ∃ fault, ofText (envelopeText .int32 "-9223372036854775808".toList) =
        .error (.literal .int32 fault) ∧
      fault.message = "-9223372036854775808 is out of range" := by
  obtain ⟨n, hn⟩ : ∃ n, n = Numeral.mk true (Text.decimal 9223372036854775808) none none := ⟨_, rfl⟩
  have hwritten : n.IsWritten := hn ▸ isWritten_decimal true 9223372036854775808
  have htoken : n.IsText "-9223372036854775808".toList :=
    ⟨_, Numeral.spells_text hwritten, by rw [hn]; decide +kernel⟩
  have hrat : n.toRat = -9223372036854775808 := by
    rw [Numeral.toRat_of_plain (by rw [hn]; rfl), hn]
    simp [ofDecimal_decimal]
  have hfinite : |n.toRat| < finiteLimit := by
    rw [Numeral.abs_toRat, ← Numeral.isSome_double?_iff hwritten, hn]
    decide +kernel
  obtain ⟨h64, h32, hvalue, -, -, hfault⟩ := integer_exactness htoken hfinite
  rw [hrat] at h64 h32 hvalue
  have hinteger : n.IsInteger := by
    rw [hn]
    exact ⟨rfl, rfl, by decide +kernel⟩
  obtain ⟨w, hw⟩ := h64.mpr ⟨hinteger, by norm_num, by norm_num⟩
  have hleast : ∀ i : Int64, ofText (envelopeText .int64 "-9223372036854775808".toList) =
      .ok (.int64 i) → i.toInt = -9223372036854775808 := by
    intro i hi
    obtain ⟨j, hj, hj'⟩ := hvalue _ hi
    obtain rfl := int64.inj hj
    exact_mod_cast hj'
  constructor
  · obtain ⟨i, rfl, -⟩ := hvalue w hw
    exact ⟨i, hw, hleast i hw⟩
  · cases hread : ofText (envelopeText .int32 "-9223372036854775808".toList) with
    | ok w' =>
      obtain ⟨-, hlow, -⟩ := h32.mp ⟨w', hread⟩
      exact absurd hlow (by norm_num)
    | error f =>
      obtain ⟨fault, rfl, ⟨i, hi, hmessage⟩ | ⟨hnone, -⟩⟩ := hfault f hread
      · refine ⟨fault, rfl, hmessage.trans ?_⟩
        rw [hleast i hi]
        decide +kernel
      · exact absurd hw (hnone w)

end Scalar
end SavedFilter
