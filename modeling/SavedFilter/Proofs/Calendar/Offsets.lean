import SavedFilter.Proofs.Calendar.Reading
import SavedFilter.Proofs.Calendar.RoundTrip

/-!
# The grammar of a date with an offset

The reader cuts a text in front of the last sign behind its first `T`.  A date and time has its `T`,
and an offset has no sign but the one it begins with, so this is the only place where a date and
time and an offset can meet:

* `Spells`              the offsets: a sign, hours and minutes, and perhaps seconds;
* `split_append`        a date and time and an offset are cut apart where they meet;
* `split_unique`        so there is no other way to take a text apart into the two;
* `read_eq_ok_iff`      what is read is a date and time, and an offset within the calendar;
* `isValid_of_split`    the text is cut between two characters.
-/

namespace SavedFilter.Calendar.OffsetDateTime
open Text Reader

/-! ## the text of an offset -/

/-- two digits that spell a number below `limit` -/
def IsTwoDigits (limit : Nat) (ds : List Char) : Prop :=
  ds.length = 2 ∧ (∀ c ∈ ds, c.isDigit = true) ∧ ofDecimal ds < limit

-- the characters of the list are tested, not all characters there are
instance (limit : Nat) (ds : List Char) : Decidable (IsTwoDigits limit ds) :=
  @instDecidableAnd _ _ _ (@instDecidableAnd _ _ (List.decidableBAll _ ds) _)

inductive SpellsMagnitude : List Char → Nat → Prop
  | minutes {h m : List Char} : IsTwoDigits 24 h → IsTwoDigits 60 m →
      SpellsMagnitude (h ++ ':' :: m) (ofDecimal h * 3600 + ofDecimal m * 60)
  | seconds {h m s : List Char} : IsTwoDigits 24 h → IsTwoDigits 60 m → IsTwoDigits 60 s →
      SpellsMagnitude (h ++ ':' :: (m ++ ':' :: s))
        (ofDecimal h * 3600 + ofDecimal m * 60 + ofDecimal s)

/-- the text of an offset, in seconds ahead of universal time -/
inductive Spells : List Char → Int → Prop
  | ahead {cs : List Char} {n : Nat} : SpellsMagnitude cs n → Spells ('+' :: cs) n
  | behind {cs : List Char} {n : Nat} : SpellsMagnitude cs n → Spells ('-' :: cs) (-n)

theorem twoDigits?_eq_some_iff {a b : Char} {n : Nat} :
    twoDigits? a b = some n ↔ (∀ c ∈ [a, b], c.isDigit = true) ∧ ofDecimal [a, b] = n := by
  have hpair : (∀ c ∈ [a, b], c.isDigit = true) ↔ (a.isDigit && b.isDigit) = true := by
    rw [List.forall_mem_cons, List.forall_mem_singleton, Bool.and_eq_true]
  rw [twoDigits?, hpair]
  split_ifs with h
  · rw [Option.some.injEq, and_iff_right h]
  · exact ⟨fun he => (by cases he), fun he => absurd he.1 h⟩

theorem IsTwoDigits.exists_twoDigits? {limit : Nat} {ds : List Char} (h : IsTwoDigits limit ds) :
    ∃ a b n, ds = [a, b] ∧ twoDigits? a b = some n ∧ ofDecimal ds = n ∧ n < limit := by
  obtain ⟨hlen, hdigit, hlimit⟩ := h
  obtain ⟨a, b, rfl⟩ := List.length_eq_two.mp hlen
  exact ⟨a, b, ofDecimal [a, b], rfl, twoDigits?_eq_some_iff.mpr ⟨hdigit, rfl⟩, rfl, hlimit⟩

theorem spellsMagnitude_of_magnitude? {cs : List Char} {n : Nat} (h : magnitude? cs = some n) :
    SpellsMagnitude cs n := by
  unfold magnitude? at h
  split at h
  · next h₁ h₂ m₁ m₂ =>
    obtain ⟨hour, hhour, h⟩ := Option.bind_eq_some_iff.mp h
    obtain ⟨minute, hminute, h⟩ := Option.bind_eq_some_iff.mp h
    split_ifs at h with hlimit
    obtain ⟨hhdigit, rfl⟩ := twoDigits?_eq_some_iff.mp hhour
    obtain ⟨hmdigit, rfl⟩ := twoDigits?_eq_some_iff.mp hminute
    rw [← Option.some.inj h]
    exact .minutes (h := [h₁, h₂]) ⟨rfl, hhdigit, hlimit.1⟩ ⟨rfl, hmdigit, hlimit.2⟩
  · next h₁ h₂ m₁ m₂ s₁ s₂ =>
    obtain ⟨hour, hhour, h⟩ := Option.bind_eq_some_iff.mp h
    obtain ⟨minute, hminute, h⟩ := Option.bind_eq_some_iff.mp h
    obtain ⟨second, hsecond, h⟩ := Option.bind_eq_some_iff.mp h
    split_ifs at h with hlimit
    obtain ⟨hhdigit, rfl⟩ := twoDigits?_eq_some_iff.mp hhour
    obtain ⟨hmdigit, rfl⟩ := twoDigits?_eq_some_iff.mp hminute
    obtain ⟨hsdigit, rfl⟩ := twoDigits?_eq_some_iff.mp hsecond
    rw [← Option.some.inj h]
    exact .seconds (h := [h₁, h₂]) (m := [m₁, m₂]) ⟨rfl, hhdigit, hlimit.1⟩
      ⟨rfl, hmdigit, hlimit.2.1⟩ ⟨rfl, hsdigit, hlimit.2.2⟩
  · cases h

theorem magnitude?_eq_some_iff {cs : List Char} {n : Nat} :
    magnitude? cs = some n ↔ SpellsMagnitude cs n := by
  refine ⟨spellsMagnitude_of_magnitude?, fun h => ?_⟩
  cases h with
  | minutes hh hm =>
    obtain ⟨h₁, h₂, hour, rfl, hhour, hhvalue, hh24⟩ := hh.exists_twoDigits?
    obtain ⟨m₁, m₂, minute, rfl, hminute, hmvalue, hm60⟩ := hm.exists_twoDigits?
    rw [hhvalue, hmvalue]
    simp [magnitude?, hhour, hminute, hh24, hm60]
  | seconds hh hm hs =>
    obtain ⟨h₁, h₂, hour, rfl, hhour, hhvalue, hh24⟩ := hh.exists_twoDigits?
    obtain ⟨m₁, m₂, minute, rfl, hminute, hmvalue, hm60⟩ := hm.exists_twoDigits?
    obtain ⟨s₁, s₂, second, rfl, hsecond, hsvalue, hs60⟩ := hs.exists_twoDigits?
    rw [hhvalue, hmvalue, hsvalue]
    simp [magnitude?, hhour, hminute, hsecond, hh24, hm60, hs60]

theorem offset?_eq_some_iff {cs : List Char} {n : Int} : offset? cs = some n ↔ Spells cs n := by
  constructor
  · intro h
    unfold offset? at h
    split at h
    · obtain ⟨k, hk, rfl⟩ := Option.map_eq_some_iff.mp h
      obtain ⟨m, hm, hk⟩ := Option.bind_eq_some_iff.mp hk
      rw [← Option.some.inj hk]
      exact .ahead (magnitude?_eq_some_iff.mp hm)
    · obtain ⟨k, hk, rfl⟩ := Option.map_eq_some_iff.mp h
      obtain ⟨m, hm, hk⟩ := Option.bind_eq_some_iff.mp hk
      rw [← Option.some.inj hk]
      exact .behind (magnitude?_eq_some_iff.mp hm)
    · cases h
  · intro h
    cases h with
    | ahead h => rw [offset?, magnitude?_eq_some_iff.mpr h]; rfl
    | behind h => rw [offset?, magnitude?_eq_some_iff.mpr h]; rfl

theorem Spells.unique {o : List Char} {n n' : Int} (h : Spells o n) (h' : Spells o n') :
    n = n' :=
  Option.some.inj ((offset?_eq_some_iff.mpr h).symm.trans (offset?_eq_some_iff.mpr h'))

/-- an offset that can be spelled is less than a day -/
theorem SpellsMagnitude.lt_day {cs : List Char} {n : Nat} (h : SpellsMagnitude cs n) :
    n < 86400 := by
  cases h with
  | minutes hh hm =>
    have := hh.2.2
    have := hm.2.2
    omega
  | seconds hh hm hs =>
    have := hh.2.2
    have := hm.2.2
    have := hs.2.2
    omega

theorem isOffset_iff {moment : DateTime} {o : List Char} {n : Int} (h : Spells o n) :
    IsOffset moment n ↔ firstSecond ≤ moment.seconds - n ∧ moment.seconds - n ≤ lastSecond := by
  have hday : -86400 < n ∧ n < 86400 := by
    cases h with
    | ahead h =>
      have := h.lt_day
      constructor <;> omega
    | behind h =>
      have := h.lt_day
      constructor <;> omega
  rw [IsOffset, and_iff_right hday.1, and_iff_right hday.2]

/-! ## where a text is cut -/

theorem SpellsMagnitude.isDigit_or_colon {cs : List Char} {n : Nat} (h : SpellsMagnitude cs n) :
    ∀ c ∈ cs, c.isDigit = true ∨ c = ':' := by
  intro c hc
  cases h with
  | minutes hh hm =>
    simp only [List.mem_append, List.mem_cons] at hc
    rcases hc with hc | hc | hc
    · exact .inl (hh.2.1 c hc)
    · exact .inr hc
    · exact .inl (hm.2.1 c hc)
  | seconds hh hm hs =>
    simp only [List.mem_append, List.mem_cons] at hc
    rcases hc with hc | hc | hc | hc | hc
    · exact .inl (hh.2.1 c hc)
    · exact .inr hc
    · exact .inl (hm.2.1 c hc)
    · exact .inr hc
    · exact .inl (hs.2.1 c hc)

/-- the sign of an offset is the only one -/
theorem SpellsMagnitude.not_isSign {cs : List Char} {n : Nat} (h : SpellsMagnitude cs n) :
    ∀ c ∈ cs, isSign c = false := by
  intro c hc
  rcases h.isDigit_or_colon c hc with hdigit | rfl
  · simp only [isSign, Bool.or_eq_false_iff, beq_eq_false_iff_ne]
    exact ⟨ne_of_isDigit hdigit rfl, ne_of_isDigit hdigit rfl⟩
  · rfl

theorem Spells.exists_sign {o : List Char} {n : Int} (h : Spells o n) :
    ∃ sign cs, o = sign :: cs ∧ isSign sign = true ∧ ∀ c ∈ cs, isSign c = false := by
  cases h with
  | ahead h => exact ⟨'+', _, rfl, rfl, h.not_isSign⟩
  | behind h => exact ⟨'-', _, rfl, rfl, h.not_isSign⟩

theorem splitAtLastSign?_eq_some {cs before behind : List Char}
    (h : splitAtLastSign? cs = some (before, behind)) : cs = before ++ behind := by
  have hrun := List.takeWhile_append_dropWhile (p := fun c => !isSign c) (l := cs.reverse)
  unfold splitAtLastSign? at h
  dsimp only at h
  split at h
  · cases h
  · next sign front he =>
    obtain ⟨rfl, rfl⟩ := Prod.mk.inj (Option.some.inj h)
    have hcs : cs = (sign :: front).reverse ++ (cs.reverse.takeWhile (!isSign ·)).reverse := by
      rw [← List.reverse_append, ← he, hrun, List.reverse_reverse]
    rw [List.reverse_cons, List.append_assoc] at hcs
    exact hcs

/-- nothing is lost where a text is cut -/
theorem split_eq_ok {cs before behind : List Char} (h : split cs = .ok (before, behind)) :
    cs = before ++ behind := by
  unfold split at h
  dsimp only at h
  split_ifs at h
  split at h
  · cases h
  · next hsplit =>
    obtain ⟨rfl, rfl⟩ := Prod.mk.inj (Except.ok.inj h)
    rw [List.append_assoc, ← splitAtLastSign?_eq_some hsplit, List.takeWhile_append_dropWhile]

section
variable {l o : List Char} {moment : DateTime} {n : Int}

/-- a date and time has a `T`, in front of which there is none -/
theorem exists_of_read {cs : List Char} (h : DateTime.read cs = .ok moment) :
    ∃ date time, cs = date ++ 'T' :: time ∧ ∀ c ∈ date, (c != 'T') = true := by
  obtain ⟨time, -, ⟨date, hcs, hdate⟩, -⟩ := DateTime.exists_of_read h
  refine ⟨date, time, hcs, fun c hc => bne_iff_ne.mpr ?_⟩
  rintro rfl
  exact Bool.false_ne_true (hdate 'T' hc)

/-- a date and time and an offset are cut apart where they meet -/
theorem split_append (hl : DateTime.read l = .ok moment) (ho : Spells o n) :
    split (l ++ o) = .ok (l, o) := by
  obtain ⟨date, time, rfl, hdate⟩ := exists_of_read hl
  obtain ⟨sign, cs, rfl, hsign, hcs⟩ := ho.exists_sign
  have hstop : Stops (· != 'T') ('T' :: time ++ sign :: cs) := stops_cons _ rfl
  rw [List.append_assoc, split, takeWhile_run hdate hstop, dropWhile_run hdate hstop]
  simp only [splitAtLastSign?_append _ hsign hcs]
  rfl

/-- no text is a date and time and an offset in two ways -/
theorem split_unique {l' o' : List Char} {moment' : DateTime} {n' : Int}
    (hl : DateTime.read l = .ok moment) (ho : Spells o n) (hl' : DateTime.read l' = .ok moment')
    (ho' : Spells o' n') (h : l ++ o = l' ++ o') : l = l' ∧ o = o' := by
  have hsplit := split_append hl ho
  rw [h, split_append hl' ho'] at hsplit
  obtain ⟨h₁, h₂⟩ := Prod.mk.inj (Except.ok.inj hsplit)
  exact ⟨h₁.symm, h₂.symm⟩

end

/-! ## reading -/

/-- **What is read is a date and time, and an offset within the calendar.** -/
theorem read_eq_ok_iff {cs : List Char} {d : OffsetDateTime} :
    read cs = .ok d ↔
      ∃ l o, cs = l ++ o ∧ DateTime.read l = .ok d.moment ∧ Spells o d.offset := by
  constructor
  · intro h
    obtain ⟨⟨before, behind⟩, hsplit, h⟩ := bind_eq_ok.mp h
    obtain ⟨moment, hmoment, h⟩ := bind_eq_ok.mp h
    split at h
    · cases h
    · next offset hoffset =>
      rw [of?] at h
      split_ifs at h with hvalid
      obtain rfl := Except.ok.inj h
      exact ⟨before, behind, split_eq_ok hsplit, mapError_eq_ok.mp hmoment,
        offset?_eq_some_iff.mp hoffset⟩
  · rintro ⟨l, o, hcs, hl, ho⟩
    simp only [read, hcs, split_append hl ho, hl, offset?_eq_some_iff.mpr ho, of?_eq_some d.valid,
      bind, Except.bind, Except.mapError]

/-! ## positions -/

/-- a part of a text in front ends between two characters -/
theorem isValid_of_append {s : String} {front rest : List Char} (h : s.toList = front ++ rest) :
    (String.ofList front).rawEndPos.IsValid s := by
  rw [String.Pos.Raw.isValid_iff_exists_append]
  refine ⟨String.ofList front, String.ofList rest, ?_, rfl⟩
  rw [← String.ofList_append, ← h, String.ofList_toList]

/-- Both places where a text is cut, in front of its first `T` and in front of the offset, are
between two characters, so that no character is cut in two. -/
theorem isValid_of_split (s : String) :
    (String.ofList (s.toList.takeWhile (· != 'T'))).rawEndPos.IsValid s ∧
      ∀ before behind, split s.toList = .ok (before, behind) →
        (String.ofList before).rawEndPos.IsValid s := by
  constructor
  · exact isValid_of_append List.takeWhile_append_dropWhile.symm
  · intro before behind h
    exact isValid_of_append (split_eq_ok h)

end SavedFilter.Calendar.OffsetDateTime
