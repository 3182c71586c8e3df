import Mathlib.Tactic.NormNum
import SavedFilter.Proofs.Calendar.Fractions
import SavedFilter.Proofs.Decimal.Powers
import SavedFilter.Scalar.Envelope

/-!
# Literals of decimals and of times

Which literals fit the kinds that are texts, and what they are read as:

* `offsetDateTime_grammar`   the literals of a date with an offset are those of a date with a time,
                             each followed by the text of an offset;
* `literal_exactness`        a decimal, and a fraction of a second, are read as exactly as their
                             digits have room, and it can be told which literals have too many.
-/

namespace SavedFilter.Scalar
open Calendar

/-! ## envelopes of texts -/

section
variable {s : String}

theorem ofEnvelope_named (k : Kind) (v : Json) :
    ofEnvelope (.arr [.str k.name, v]) = (ofLiteral k v).mapError (.literal k) := by
  simp only [ofEnvelope, Kind.ofName?_name]

/-- a kind whose literals are texts, which are read as something that is then a value -/
theorem ofEnvelope_text {k : Kind} {α ε : Type} {x : Except ε α} {fault : ε → LiteralFault}
    {wrap : α → Scalar} (h : ofLiteral k (.str s) = (x.mapError fault).map wrap) {v : Scalar} :
    ofEnvelope (.arr [.str k.name, .str s]) = .ok v ↔ ∃ a, x = .ok a ∧ wrap a = v := by
  rw [ofEnvelope_named, mapError_eq_ok, h, map_eq_ok]
  simp only [mapError_eq_ok]

variable {v : Scalar}

theorem ofEnvelope_decimal : ofEnvelope (.arr [.str "decimal", .str s]) = .ok v ↔
    ∃ d, Decimal.read s.toList = .ok d ∧ .decimal d = v := @ofEnvelope_text s .decimal _ _ _ _ _ rfl v

theorem ofEnvelope_dateTime : ofEnvelope (.arr [.str "datetime", .str s]) = .ok v ↔
    ∃ d, DateTime.read s.toList = .ok d ∧ .dateTime d = v :=
  @ofEnvelope_text s .dateTime _ _ _ _ _ rfl v

theorem ofEnvelope_offsetDateTime :
    ofEnvelope (.arr [.str "datetimeoffset", .str s]) = .ok v ↔
      ∃ d, OffsetDateTime.read s.toList = .ok d ∧ .offsetDateTime d = v :=
  @ofEnvelope_text s .offsetDateTime _ _ _ _ _ rfl v

theorem ofEnvelope_time : ofEnvelope (.arr [.str "time", .str s]) = .ok v ↔
    ∃ t, Time.read s.toList = .ok t ∧ .time t = v := @ofEnvelope_text s .time _ _ _ _ _ rfl v

end

/-! ## dates with offsets -/

/-- **The grammar of a date with an offset.**  A literal fits if and only if it is the literal of a
date with a time, followed by an offset with which the instant is in the calendar.  There is only
one way to take it apart so, and it is read as that date and time and that offset.  Every other
literal is refused as one that does not fit, and the places where the reader cuts the text are
between two characters. -/
theorem offsetDateTime_grammar (s : String) :
    ((∃ v, ofEnvelope (.arr [.str "datetimeoffset", .str s]) = .ok v) ↔
      ∃ l o moment offset, s.toList = l ++ o ∧
        ofEnvelope (.arr [.str "datetime", .str (String.ofList l)]) = .ok (.dateTime moment) ∧
        OffsetDateTime.Spells o offset ∧
        firstSecond ≤ moment.seconds - offset ∧ moment.seconds - offset ≤ lastSecond) ∧
    (∀ l o moment offset l' o' moment' offset', s.toList = l ++ o → s.toList = l' ++ o' →
      ofEnvelope (.arr [.str "datetime", .str (String.ofList l)]) = .ok (.dateTime moment) →
      ofEnvelope (.arr [.str "datetime", .str (String.ofList l')]) = .ok (.dateTime moment') →
      OffsetDateTime.Spells o offset → OffsetDateTime.Spells o' offset' → l = l' ∧ o = o') ∧
    (∀ l o moment offset v, s.toList = l ++ o →
      ofEnvelope (.arr [.str "datetime", .str (String.ofList l)]) = .ok (.dateTime moment) →
      OffsetDateTime.Spells o offset →
      ofEnvelope (.arr [.str "datetimeoffset", .str s]) = .ok v →
      ∃ d : OffsetDateTime, v = .offsetDateTime d ∧ d.moment = moment ∧ d.offset = offset) ∧
    (∀ f, ofEnvelope (.arr [.str "datetimeoffset", .str s]) = .error f →
      ∃ fault, f = .literal .offsetDateTime (.offset fault)) ∧
    (String.ofList (s.toList.takeWhile (· != 'T'))).rawEndPos.IsValid s ∧
    ∀ before behind, OffsetDateTime.split s.toList = .ok (before, behind) →
      (String.ofList before).rawEndPos.IsValid s := by
  have hlocal {l : List Char} {moment : DateTime} :
      ofEnvelope (.arr [.str "datetime", .str (String.ofList l)]) = .ok (.dateTime moment) ↔
        DateTime.read l = .ok moment := by
    simp [ofEnvelope_dateTime]
  simp only [hlocal]
  refine ⟨⟨?_, ?_⟩, ?_, ?_, ?_, OffsetDateTime.isValid_of_split s⟩
  · rintro ⟨v, hv⟩
    obtain ⟨d, hread, -⟩ := ofEnvelope_offsetDateTime.mp hv
    obtain ⟨l, o, hs, hl, ho⟩ := OffsetDateTime.read_eq_ok_iff.mp hread
    have hrange := (OffsetDateTime.isOffset_iff ho).mp d.valid
    exact ⟨l, o, d.moment, d.offset, hs, hl, ho, hrange⟩
  · rintro ⟨l, o, moment, offset, hs, hl, ho, hrange⟩
    have hvalid := (OffsetDateTime.isOffset_iff ho).mpr hrange
    have hread := OffsetDateTime.read_eq_ok_iff (d := ⟨moment, offset, hvalid⟩).mpr
      ⟨l, o, hs, hl, ho⟩
    exact ⟨_, ofEnvelope_offsetDateTime.mpr ⟨_, hread, rfl⟩⟩
  · intro l o moment offset l' o' moment' offset' hs hs' hl hl' ho ho'
    exact OffsetDateTime.split_unique hl ho hl' ho' (hs.symm.trans hs')
  · intro l o moment offset v hs hl ho hv
    obtain ⟨d, hread, hd⟩ := ofEnvelope_offsetDateTime.mp hv
    obtain ⟨l', o', hs', hl', ho'⟩ := OffsetDateTime.read_eq_ok_iff.mp hread
    obtain ⟨rfl, rfl⟩ := OffsetDateTime.split_unique hl ho hl' ho' (hs.symm.trans hs')
    exact ⟨d, hd.symm, Except.ok.inj (hl'.symm.trans hl), ho'.unique ho⟩
  · intro f hf
    change ofEnvelope (.arr [.str Kind.offsetDateTime.name, .str s]) = .error f at hf
    rw [ofEnvelope_named] at hf
    obtain ⟨fault, hfault, rfl⟩ := mapError_eq_error.mp hf
    obtain ⟨fault', -, rfl⟩ := mapError_eq_error.mp (map_eq_error.mp hfault)
    exact ⟨fault', rfl⟩

/-- a year and an offset with a minus sign, a leap second; and an offset of a day, which is none -/
theorem offsetDateTime_grammar_leap :
    (∃ d : OffsetDateTime, ofEnvelope (.arr [.str "datetimeoffset",
        .str "-0001-01-01T00:00:60.5-09:30:15"]) = .ok (.offsetDateTime d) ∧
      d.moment = ⟨⟨-1, 1, 1, by decide⟩, ⟨0, 0, 60, 500000000, by decide⟩⟩ ∧ d.offset = -34215) ∧
    ∃ fault, ofEnvelope (.arr [.str "datetimeoffset", .str "2024-06-15T10:30:00+24:00"]) =
      .error (.literal .offsetDateTime (.offset fault)) := by
  obtain ⟨hfits, -, hresult, -⟩ := offsetDateTime_grammar "-0001-01-01T00:00:60.5-09:30:15"
  obtain ⟨-, -, -, hrefused, -⟩ := offsetDateTime_grammar "2024-06-15T10:30:00+24:00"
  have hlocal : ofEnvelope (.arr [.str "datetime",
      .str (String.ofList "-0001-01-01T00:00:60.5".toList)]) =
      .ok (.dateTime ⟨⟨-1, 1, 1, by decide⟩, ⟨0, 0, 60, 500000000, by decide⟩⟩) := by
    decide +kernel
  have hspells : OffsetDateTime.Spells "-09:30:15".toList (-34215) :=
    .behind (.seconds (h := ['0', '9']) (m := ['3', '0']) (s := ['1', '5'])
      (by decide) (by decide) (by decide))
  constructor
  · obtain ⟨v, hv⟩ := hfits.mpr ⟨_, _, _, _, rfl, hlocal, hspells, by decide, by decide⟩
    obtain ⟨d, rfl, hd⟩ := hresult _ _ _ _ v rfl hlocal hspells hv
    exact ⟨d, hv, hd⟩
  · have hnone : (ofEnvelope (.arr [.str "datetimeoffset",
        .str "2024-06-15T10:30:00+24:00"])).toOption = none := by decide +kernel
    cases hread : ofEnvelope (.arr [.str "datetimeoffset", .str "2024-06-15T10:30:00+24:00"]) with
    | ok v =>
      rw [hread] at hnone
      cases hnone
    | error f =>
      obtain ⟨fault, rfl⟩ := hrefused f hread
      exact ⟨fault, rfl⟩

/-! ## exactness -/

/-- **How exactly a literal is read.**  A decimal is less than one unit of its last place away from
the number that its literal spells, and a literal of a number that is too great does not fit.  It is
the number itself if and only if a decimal can be that number; for a literal with a power of ten
this asks that a decimal can also be the number in front of it.  A fraction of a second is cut after
its ninth digit, and so it is the fraction that the literal spells if and only if all digits behind
the ninth are zeros. -/
theorem literal_exactness (s : String) :
    (∀ d, ofEnvelope (.arr [.str "decimal", .str s]) = .ok (.decimal d) →
      |d.value - Decimal.spelled s.toList| < 1 / 10 ^ d.scale ∧
      |Decimal.spelled s.toList| < Decimal.coefficientLimit ∧
      ((∀ c ∈ s.toList, Decimal.isExponentMark c = false) ∨
          Decimal.Fits (Decimal.magnitude (Decimal.mantissaText s.toList)) →
        (d.value = Decimal.spelled s.toList ↔ Decimal.Fits (Decimal.spelled s.toList)))) ∧
    (∀ t, ofEnvelope (.arr [.str "time", .str s]) = .ok (.time t) →
      TruncatesTo s.toList t.nano) ∧
    (∀ d, ofEnvelope (.arr [.str "datetime", .str s]) = .ok (.dateTime d) →
      TruncatesTo s.toList d.time.nano) ∧
    (∀ d, ofEnvelope (.arr [.str "datetimeoffset", .str s]) = .ok (.offsetDateTime d) →
      TruncatesTo s.toList d.moment.time.nano) := by
  refine ⟨fun d hd => ?_, fun t ht => ?_, fun d hd => ?_, fun d hd => ?_⟩
  · obtain ⟨d', hread, hd⟩ := ofEnvelope_decimal.mp hd
    obtain rfl := decimal.inj hd
    refine ⟨Decimal.abs_value_sub_lt hread, Decimal.abs_spelled_lt hread, ?_⟩
    rintro (hplain | hfront)
    · exact Decimal.value_eq_iff_of_plain hread hplain
    · exact Decimal.value_eq_iff hread hfront
  · obtain ⟨t', hread, ht⟩ := ofEnvelope_time.mp ht
    obtain rfl := time.inj ht
    exact Time.truncatesTo hread
  · obtain ⟨d', hread, hd⟩ := ofEnvelope_dateTime.mp hd
    obtain rfl := dateTime.inj hd
    exact DateTime.truncatesTo hread
  · obtain ⟨d', hread, hd⟩ := ofEnvelope_offsetDateTime.mp hd
    obtain rfl := offsetDateTime.inj hd
    exact OffsetDateTime.truncatesTo hread

/-- a decimal with 29 digits behind the point, and fractions of a second with ten and with twelve -/
theorem literal_exactness_long :
    (∃ d, ofEnvelope (.arr [.str "decimal", .str "0.12345678901234567890123456785"]) =
        .ok (.decimal d) ∧
      |d.value - Decimal.spelled "0.12345678901234567890123456785".toList| < 1 / 10 ^ d.scale ∧
      (d.value = Decimal.spelled "0.12345678901234567890123456785".toList ↔
        Decimal.Fits (Decimal.spelled "0.12345678901234567890123456785".toList))) ∧
    (∃ t, ofEnvelope (.arr [.str "time", .str "10:30:00.1234567891"]) = .ok (.time t) ∧
      TruncatesTo "10:30:00.1234567891".toList t.nano) ∧
    (∃ d, ofEnvelope (.arr [.str "datetime", .str "2024-06-15T10:30:00.123456789000"]) =
        .ok (.dateTime d) ∧
      TruncatesTo "2024-06-15T10:30:00.123456789000".toList d.time.nano) ∧
    ∃ d, ofEnvelope (.arr [.str "datetimeoffset", .str "2024-06-15T10:30:00.5+02:00"]) =
        .ok (.offsetDateTime d) ∧
      TruncatesTo "2024-06-15T10:30:00.5+02:00".toList d.moment.time.nano := by
  refine ⟨?_, ?_, ?_, ?_⟩
  · obtain ⟨d, hd⟩ : ∃ d, ofEnvelope (.arr [.str "decimal",
        .str "0.12345678901234567890123456785"]) = .ok (.decimal d) :=
      ⟨⟨false, 1234567890123456789012345679, 28, by decide, by decide⟩, by decide +kernel⟩
    obtain ⟨hnear, -, hexact⟩ := (literal_exactness "0.12345678901234567890123456785").1 d hd
    have hall : ("0.12345678901234567890123456785".toList.all
        fun c => !Decimal.isExponentMark c) = true := by decide +kernel
    have hplain : ∀ c ∈ "0.12345678901234567890123456785".toList,
        Decimal.isExponentMark c = false := by
      simpa only [List.all_eq_true, Bool.not_eq_true'] using hall
    exact ⟨d, hd, hnear, hexact (.inl hplain)⟩
  · have ht : ofEnvelope (.arr [.str "time", .str "10:30:00.1234567891"]) =
        .ok (.time ⟨10, 30, 0, 123456789, by decide⟩) := by decide +kernel
    exact ⟨_, ht, (literal_exactness "10:30:00.1234567891").2.1 _ ht⟩
  · have hd : ofEnvelope (.arr [.str "datetime", .str "2024-06-15T10:30:00.123456789000"]) =
        .ok (.dateTime ⟨⟨2024, 6, 15, by decide⟩, ⟨10, 30, 0, 123456789, by decide⟩⟩) := by
      decide +kernel
    exact ⟨_, hd, (literal_exactness "2024-06-15T10:30:00.123456789000").2.2.1 _ hd⟩
  · have hd : ofEnvelope (.arr [.str "datetimeoffset", .str "2024-06-15T10:30:00.5+02:00"]) =
        .ok (.offsetDateTime ⟨⟨⟨2024, 6, 15, by decide⟩, ⟨10, 30, 0, 500000000, by decide⟩⟩, 7200,
          by decide⟩) := by
      decide +kernel
    exact ⟨_, hd, (literal_exactness "2024-06-15T10:30:00.5+02:00").2.2.2 _ hd⟩

/-- A literal may have more digits than there is room for, and then it is read as another number, or
another fraction, than it spells. -/
theorem exists_inexact_literal :
    (∃ d, ofEnvelope (.arr [.str "decimal", .str "0.12345678901234567890123456785"]) =
        .ok (.decimal d) ∧
      d.value ≠ Decimal.spelled "0.12345678901234567890123456785".toList) ∧
    ∃ t, ofEnvelope (.arr [.str "time", .str "10:30:00.1234567891"]) = .ok (.time t) ∧
      (t.nano : ℚ) / 10 ^ 9 ≠ spelledFraction "10:30:00.1234567891".toList := by
  constructor
  · refine ⟨⟨false, 1234567890123456789012345679, 28, by decide, by decide⟩, by decide +kernel, ?_⟩
    have hmantissa : Decimal.mantissaText "0.12345678901234567890123456785".toList =
        "0.12345678901234567890123456785".toList := by decide +kernel
    have hexponent : Decimal.exponent "0.12345678901234567890123456785".toList = 0 := by
      decide +kernel
    have hdigits : Text.ofDecimal (Decimal.digits "0.12345678901234567890123456785".toList) =
        12345678901234567890123456785 := by decide +kernel
    have hdecimals : (Decimal.decimals "0.12345678901234567890123456785".toList).length = 29 := by
      decide +kernel
    rw [Decimal.spelled, hmantissa, hexponent, Decimal.magnitude, hdigits, hdecimals,
      Decimal.signed, if_neg (by decide), Decimal.value, Decimal.mantissa]
    norm_num
  · refine ⟨⟨10, 30, 0, 123456789, by decide⟩, by decide +kernel, ?_⟩
    have hdigits : fractionDigits "10:30:00.1234567891".toList = "1234567891".toList := by
      decide +kernel
    have hvalue : Text.ofDecimal "1234567891".toList = 1234567891 := by decide +kernel
    have hlength : "1234567891".toList.length = 10 := by decide
    rw [spelledFraction, hdigits, hvalue, hlength]
    norm_num

end SavedFilter.Scalar
