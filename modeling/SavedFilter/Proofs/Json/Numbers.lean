import Mathlib.Data.List.DropRight
import SavedFilter.Json.Reader
import SavedFilter.Proofs.Binary64.ReadsBack

/-!
# Numbers that are read back

A number that is written is read back as itself, whatever stands behind it, as long as it does not
go on like a number:

* `Numeral.Spells`    the texts of a number, without its minus sign;
* `numeral_spelled`   its parts are found again in each of them;
* `number_integer`    an integer that 64 bits hold.
-/

namespace SavedFilter.Json
open Text Binary64 Reader

/-- a character with which a number could go on -/
def continuesNumber (c : Char) : Bool := c.isDigit || c == '.' || c == 'e' || c == 'E'

section
variable {rest : List Char}

theorem stops_isDigit (h : Stops continuesNumber rest) : Stops Char.isDigit rest := by
  intro c hc
  have := h c hc
  simp only [continuesNumber, Bool.or_eq_false_iff] at this
  exact this.1.1.1

/-! ## the parts of a number -/

namespace Numeral

/-- what a number is written with: digits, no zero in front of other digits -/
structure IsWritten (n : Numeral) : Prop where
  whole_ne : n.whole ≠ []
  whole_digits : ∀ c ∈ n.whole, c.isDigit = true
  whole_zero : n.whole.head? = some '0' → n.whole = ['0']
  fraction_ne : ∀ ds, n.fraction = some ds → ds ≠ []
  fraction_digits : ∀ ds, n.fraction = some ds → ∀ c ∈ ds, c.isDigit = true
  exponent_ne : ∀ e, n.exponent = some e → e.2 ≠ []
  exponent_digits : ∀ e, n.exponent = some e → ∀ c ∈ e.2, c.isDigit = true

def fractionText : Option (List Char) → List Char
  | none => []
  | some ds => '.' :: ds

def exponentText : Option (Bool × List Char) → List Char
  | none => []
  | some (negative, ds) => 'e' :: (if negative then '-' else '+') :: ds

def text (n : Numeral) : List Char :=
  n.whole ++ (fractionText n.fraction ++ exponentText n.exponent)

/-- the texts of an exponent: its mark in either case, and a plus sign or none -/
inductive SpellsExponent : List Char → Option (Bool × List Char) → Prop
  | none : SpellsExponent [] none
  | bare {mark : Char} (ds : List Char) : mark = 'e' ∨ mark = 'E' →
    SpellsExponent (mark :: ds) (some (false, ds))
  | plus {mark : Char} (ds : List Char) : mark = 'e' ∨ mark = 'E' →
    SpellsExponent (mark :: '+' :: ds) (some (false, ds))
  | minus {mark : Char} (ds : List Char) : mark = 'e' ∨ mark = 'E' →
    SpellsExponent (mark :: '-' :: ds) (some (true, ds))

/-- the texts of a number, without the minus sign in front -/
def Spells (n : Numeral) (cs : List Char) : Prop :=
  n.IsWritten ∧ ∃ e, SpellsExponent e n.exponent ∧ cs = n.whole ++ (fractionText n.fraction ++ e)

theorem spells_text {n : Numeral} (hn : n.IsWritten) : n.Spells n.text := by
  refine ⟨hn, exponentText n.exponent, ?_, rfl⟩
  match n.exponent with
  | none => exact .none
  | some (false, ds) => exact .plus ds (.inl rfl)
  | some (true, ds) => exact .minus ds (.inl rfl)

end Numeral

theorem someDigits_run {ds : List Char} (hne : ds ≠ []) (hd : ∀ c ∈ ds, c.isDigit = true)
    (h : Stops Char.isDigit rest) : someDigits (ds ++ rest) = .ok (ds, rest) := by
  rw [someDigits, takeWhile_run hd h, dropWhile_run hd h]
  cases ds with
  | nil => exact absurd rfl hne
  | cons c ds => rfl

theorem wholeDigits_run {ds : List Char} (hne : ds ≠ []) (hd : ∀ c ∈ ds, c.isDigit = true)
    (hz : ds.head? = some '0' → ds = ['0']) (h : Stops Char.isDigit rest) :
    wholeDigits (ds ++ rest) = .ok (ds, rest) := by
  rw [wholeDigits, someDigits_run hne hd h]
  split
  · next c cs rest' he =>
    obtain ⟨rfl, -⟩ := Prod.mk.inj (Except.ok.inj he)
    exact absurd (hz rfl) (by simp)
  · rfl

theorem fractionPart_run {o : Option (List Char)} (hne : ∀ ds, o = some ds → ds ≠ [])
    (hd : ∀ ds, o = some ds → ∀ c ∈ ds, c.isDigit = true) (h : Stops Char.isDigit rest)
    (hp : o = none → rest.head? ≠ some '.') :
    fractionPart (Numeral.fractionText o ++ rest) = .ok (o, rest) := by
  cases o with
  | none =>
    cases rest with
    | nil => rfl
    | cons c cs =>
      have hc : c ≠ '.' := by
        rintro rfl
        exact hp rfl rfl
      show fractionPart (c :: cs) = _
      unfold fractionPart
      split
      · next he => exact absurd (List.cons.inj he).1 hc
      · rfl
  | some ds =>
    show (someDigits (ds ++ rest)).map _ = _
    rw [someDigits_run (hne ds rfl) (hd ds rfl) h]
    rfl

theorem exponentPart_spelled {e : List Char} {o : Option (Bool × List Char)}
    (he : Numeral.SpellsExponent e o) (hne : ∀ e, o = some e → e.2 ≠ [])
    (hd : ∀ e, o = some e → ∀ c ∈ e.2, c.isDigit = true) (h : Stops continuesNumber rest) :
    exponentPart (e ++ rest) = .ok (o, rest) := by
  have hdigits : ∀ negative ds, o = some (negative, ds) →
      someDigits (ds ++ rest) = .ok (ds, rest) :=
    fun _ _ ho => someDigits_run (hne _ ho) (hd _ ho) (stops_isDigit h)
  cases he with
  | none =>
    cases rest with
    | nil => rfl
    | cons c cs =>
      have hc := h c rfl
      simp only [continuesNumber, Bool.or_eq_false_iff, beq_eq_false_iff_ne] at hc
      exact if_neg (not_or.mpr ⟨hc.1.2, hc.2⟩)
  | bare ds hmark =>
    have hs := hdigits false ds rfl
    obtain ⟨d, ds, rfl⟩ := List.exists_cons_of_ne_nil (hne _ rfl)
    have hdigit : d.isDigit = true := hd _ rfl d (List.mem_cons_self ..)
    refine (if_pos hmark).trans ?_
    split
    · next heq => exact absurd (List.cons.inj heq).1 (ne_of_isDigit hdigit rfl)
    · next heq => exact absurd (List.cons.inj heq).1 (ne_of_isDigit hdigit rfl)
    · exact congrArg (Except.map fun r => (some (false, r.1), r.2)) hs
  | plus ds hmark | minus ds hmark =>
    refine (if_pos hmark).trans ?_
    show (someDigits (ds ++ rest)).map _ = _
    rw [hdigits _ ds rfl]
    rfl

/-- an exponent, or what stands behind the number, does not go on with digits or with a point -/
theorem stops_exponent {e : List Char} {o : Option (Bool × List Char)}
    (he : Numeral.SpellsExponent e o) (h : Stops continuesNumber rest) :
    Stops Char.isDigit (e ++ rest) ∧ (e ++ rest).head? ≠ some '.' := by
  have hmark : ∀ c, c = 'e' ∨ c = 'E' → c.isDigit = false ∧ c ≠ '.' := by
    rintro c (rfl | rfl)
    · exact ⟨rfl, by decide⟩
    · exact ⟨rfl, by decide⟩
  cases he with
  | none =>
    constructor
    · exact stops_isDigit h
    · intro hdot
      exact absurd (h '.' hdot) (by decide)
  | bare ds hm | plus ds hm | minus ds hm =>
    exact ⟨stops_cons _ (hmark _ hm).1, fun hdot => (hmark _ hm).2 (Option.some.inj hdot)⟩

/-- the parts of a number are found again in each of its texts -/
theorem numeral_spelled {n : Numeral} {cs : List Char} (hn : n.Spells cs)
    (h : Stops continuesNumber rest) : numeral n.negative (cs ++ rest) = .ok (n, rest) := by
  obtain ⟨hn, e, he, rfl⟩ := hn
  have hstops := stops_exponent he h
  have hf : Stops Char.isDigit (Numeral.fractionText n.fraction ++ (e ++ rest)) := by
    cases n.fraction with
    | none => exact hstops.1
    | some ds => exact stops_cons _ rfl
  rw [List.append_assoc, List.append_assoc, numeral,
    wholeDigits_run hn.whole_ne hn.whole_digits hn.whole_zero hf]
  show (fractionPart _ >>= _) = _
  rw [fractionPart_run hn.fraction_ne hn.fraction_digits hstops.1 fun _ => hstops.2]
  show (exponentPart _ >>= _) = _
  rw [exponentPart_spelled he hn.exponent_ne hn.exponent_digits h]
  rfl

theorem number_spelled {n : Numeral} {cs : List Char} (hn : n.Spells cs) {v : Json}
    (hv : n.value? = some v) (h : Stops continuesNumber rest) :
    number n.negative (cs ++ rest) = .ok (v, rest) := by
  simp only [number, numeral_spelled hn h, hv, bind, Except.bind]

theorem number_text {n : Numeral} (hn : n.IsWritten) {v : Json} (hv : n.value? = some v)
    (h : Stops continuesNumber rest) : number n.negative (n.text ++ rest) = .ok (v, rest) :=
  number_spelled (Numeral.spells_text hn) hv h

/-! ## integers -/

/-- the numbers that are written and read without a fraction -/
def FitsInteger (n : Int) : Prop := -0x8000000000000000 ≤ n ∧ n < 0x10000000000000000

instance (n : Int) : Decidable (FitsInteger n) := inferInstanceAs (Decidable (_ ∧ _))

theorem isWritten_decimal (negative : Bool) (n : Nat) :
    (Numeral.mk negative (decimal n) none none).IsWritten where
  whole_ne := decimal_ne_nil n
  whole_digits _ := isDigit_of_mem_decimal
  whole_zero h := by
    rcases Nat.eq_zero_or_pos n with rfl | hn
    · rfl
    · exact absurd h (head?_decimal_ne hn)
  fraction_ne _ h := nomatch h
  fraction_digits _ h := nomatch h
  exponent_ne _ h := nomatch h
  exponent_digits _ h := nomatch h

theorem number_integer {n : Int} (hn : FitsInteger n) (h : Stops continuesNumber rest) :
    number (decide (n < 0)) (decimal n.natAbs ++ rest) = .ok (.int n, rest) := by
  have hw := isWritten_decimal (decide (n < 0)) n.natAbs
  have hv : (Numeral.mk (decide (n < 0)) (decimal n.natAbs) none none).value? = some (.int n) := by
    have hi : (Numeral.mk (decide (n < 0)) (decimal n.natAbs) none none).int? = some n := by
      obtain ⟨hlo, hhi⟩ := hn
      have hsize : UInt64.size = 0x10000000000000000 := rfl
      simp only [Numeral.int?, ofDecimal_decimal, Numeral.isPlain, Option.isNone_none,
        Bool.and_self, Bool.not_true, Bool.false_eq_true, if_false, decide_eq_true_eq, hsize]
      by_cases hneg : n < 0
      · rw [if_pos hneg, if_pos (by omega)]
        congr 1
        omega
      · rw [if_neg hneg, if_pos (by omega)]
        congr 1
        omega
    rw [Numeral.value?, hi]
  have ht := number_text hw hv h
  rwa [Numeral.text, Numeral.fractionText, Numeral.exponentText, List.append_nil,
    List.append_nil] at ht

end
end SavedFilter.Json
