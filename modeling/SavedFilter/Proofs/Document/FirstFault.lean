import Mathlib.Data.List.Lex
import SavedFilter.Document
import SavedFilter.Proofs.Except
import SavedFilter.Proofs.Json.Lookups
import SavedFilter.Proofs.Json.Nesting

/-!
# The first bad value of a document

The check of the values walks a document from rule to rule.  Here the same rules are found by
*paths*: from an object a path goes to an item of its `filters`, by the place in that list, and on
from there.  In the order of lists of numbers a path stands in front of those that go on from it,
and both stand in front of the paths to later items, so this is the pre-order of the rules.

* `Json.at?`        what is found at a path;
* `Rejects`         at the end of a path, not an empty one, stands a value that is no envelope;
* `Finds`           a check finds the first of the faults that there are;
* `finds_checkValues`   the check of the values finds the first bad value in pre-order;
* `checkValues_eq_ok_iff`, `checkValues_eq_error_iff`   its result says whether and which one;
* `load_of_parse`, `load_of_parse_error`   a document comes to the check if it is read as JSON.
-/

namespace SavedFilter

namespace Json

/-- the items of the `filters` of an object -/
def filters (v : Json) : List Json :=
  match v.get? "filters" with
  | some (.arr items) => items
  | _ => []

/-- the items of an array -/
def itemsOf : Json → List Json
  | .arr items => items
  | _ => []

theorem filters_eq (ms : List (String × Json)) :
    (Json.obj ms).filters = ((ms.lookup "filters").map itemsOf).getD [] := by
  rw [filters, get?]
  cases ms.lookup "filters" with
  | none => rfl
  | some v => cases v <;> rfl

/-- what is found at a path -/
def at? (v : Json) : List Nat → Option Json
  | [] => some v
  | i :: path => v.filters[i]?.bind fun e => e.at? path

theorem at?_cons (v : Json) (i : Nat) (path : List Nat) :
    v.at? (i :: path) = v.filters[i]?.bind fun e => e.at? path := rfl

theorem exists_of_mem_filters {v e : Json} (h : e ∈ v.filters) :
    ∃ ms items, v = .obj ms ∧ ms.lookup "filters" = some (.arr items) ∧ e ∈ items := by
  unfold filters at h
  split at h
  · next items hget =>
    cases v with
    | obj ms => exact ⟨ms, items, rfl, hget, h⟩
    | _ => exact nomatch hget
  · exact nomatch h

/-- the items of the `filters` are smaller, so that what holds of a value if it holds of them holds
of every value -/
theorem filters_induction {P : Json → Prop} (h : ∀ v, (∀ e ∈ v.filters, P e) → P v) (v : Json) :
    P v := by
  induction hn : v.nesting using Nat.strong_induction_on generalizing v with
  | _ n ih =>
    apply h
    intro e he
    obtain ⟨ms, items, rfl, hms, hitems⟩ := exists_of_mem_filters he
    have he := nestingOfAll_le_iff.mp le_rfl e hitems
    have harr : nestingOfAll items + 1 ≤ nestingOfMembers ms :=
      nestingOfMembers_le_iff.mp le_rfl _ (mem_of_lookup hms)
    rw [nesting] at hn
    exact ih e.nesting (by omega) e rfl

theorem writable_of_mem_filters {v e : Json} (hv : v.Writable) (h : e ∈ v.filters) :
    e.Writable := by
  obtain ⟨ms, items, rfl, hms, hitems⟩ := exists_of_mem_filters h
  have harr : (Json.arr items).Writable := membersWritable_iff.mp hv.2 _ (mem_of_lookup hms)
  exact allWritable_iff.mp harr e hitems

end Json

namespace Document

/-! ## faults by path -/

/-- a check finds the first fault there is, in the order of the paths -/
def Finds {ε : Type} (r : Except ε Unit) (R : List Nat → ε → Prop) : Prop :=
  match r with
  | .ok () => ∀ path f, ¬ R path f
  | .error f => ∃ path, R path f ∧ ∀ q < path, ∀ f', ¬ R q f'

/-- at the end of the path stands a value that is no envelope -/
def RejectsAt (v : Json) (path : List Nat) (f : Scalar.EnvelopeFault) : Prop :=
  ∃ e raw, v.at? path = some e ∧ e.get? "value" = some raw ∧ Scalar.ofEnvelope raw = .error f

/-- the same of a rule below the root -/
def Rejects (v : Json) (path : List Nat) (f : Scalar.EnvelopeFault) : Prop :=
  path ≠ [] ∧ RejectsAt v path f

def RejectsAmong (items : List Json) (path : List Nat) (f : Scalar.EnvelopeFault) : Prop :=
  ∃ i rest e, path = i :: rest ∧ items[i]? = some e ∧ RejectsAt e rest f

theorem rejects_iff {v : Json} {path : List Nat} {f : Scalar.EnvelopeFault} :
    Rejects v path f ↔ RejectsAmong v.filters path f := by
  constructor
  · rintro ⟨hne, e, raw, he, hraw, hf⟩
    cases path with
    | nil => exact absurd rfl hne
    | cons i rest =>
      obtain ⟨d, hd, he⟩ := Option.bind_eq_some_iff.mp he
      exact ⟨i, rest, d, rfl, hd, e, raw, he, hraw, hf⟩
  · rintro ⟨i, rest, d, rfl, hd, e, raw, he, hraw, hf⟩
    exact ⟨List.cons_ne_nil i rest, e, raw, Option.bind_eq_some_iff.mpr ⟨d, hd, he⟩, hraw, hf⟩

/-- a path has at most one fault -/
theorem RejectsAt.unique {v : Json} {path : List Nat} {f f' : Scalar.EnvelopeFault}
    (h : RejectsAt v path f) (h' : RejectsAt v path f') : f = f' := by
  obtain ⟨e, raw, he, hraw, hf⟩ := h
  obtain ⟨e', raw', he', hraw', hf'⟩ := h'
  obtain rfl := Option.some.inj (he.symm.trans he')
  obtain rfl := Option.some.inj (hraw.symm.trans hraw')
  exact Except.error.inj (hf.symm.trans hf')

theorem checkValue_eq_ok_iff {e : Json} :
    checkValue e = .ok () ↔ ∀ f, ¬ RejectsAt e [] f := by
  constructor
  · rintro h f ⟨d, raw, hd, hraw, hf⟩
    obtain rfl := Option.some.inj hd
    rw [checkValue, hraw] at h
    simp only [hf] at h
    exact nomatch h
  · intro h
    rw [checkValue]
    cases hraw : e.get? "value" with
    | none => rfl
    | some raw =>
      cases hf : Scalar.ofEnvelope raw with
      | ok x => simp only [hf]; rfl
      | error f => exact absurd ⟨e, raw, rfl, hraw, hf⟩ (h f)

theorem checkValue_eq_error_iff {e : Json} {f : Scalar.EnvelopeFault} :
    checkValue e = .error f ↔ RejectsAt e [] f := by
  constructor
  · intro h
    rw [checkValue] at h
    cases hraw : e.get? "value" with
    | none => rw [hraw] at h; exact nomatch h
    | some raw =>
      rw [hraw] at h
      exact ⟨e, raw, rfl, hraw, map_eq_error.mp h⟩
  · rintro ⟨d, raw, hd, hraw, hf⟩
    obtain rfl := Option.some.inj hd
    rw [checkValue, hraw]
    exact map_eq_error.mpr hf

/-! ## the walk -/

theorem checkMembers_eq (ms : List (String × Json)) :
    checkMembers ms = checkItems (Json.obj ms).filters := by
  induction ms with
  | nil => rfl
  | cons m ms ih =>
    obtain ⟨key, v⟩ := m
    by_cases hk : key = "filters"
    · subst hk
      cases v <;> rfl
    · have hget : (Json.obj ((key, v) :: ms)).filters = (Json.obj ms).filters := by
        have hb : ("filters" == key) = false := beq_eq_false_iff_ne.mpr (Ne.symm hk)
        simp only [Json.filters, Json.get?, List.lookup_cons, hb]
      rw [hget, ← ih]
      cases v <;> simp [checkMembers, hk]

theorem checkValues_eq (v : Json) : checkValues v = checkItems v.filters := by
  cases v with
  | obj ms => exact checkMembers_eq ms
  | _ => rfl

/-- one rule: its own value comes first, then what is below it -/
theorem finds_entry {e : Json} (h : Finds (checkValues e) (Rejects e)) :
    Finds (checkValue e >>= fun _ => checkValues e) (RejectsAt e) := by
  cases hv : checkValue e with
  | error f =>
    refine ⟨[], checkValue_eq_error_iff.mp hv, ?_⟩
    intro q hq
    exact absurd hq (List.not_lt_nil q)
  | ok u =>
    have hnone := checkValue_eq_ok_iff.mp hv
    show Finds (checkValues e) (RejectsAt e)
    cases hw : checkValues e with
    | error f =>
      rw [hw] at h
      obtain ⟨path, hpath, hfirst⟩ := h
      refine ⟨path, hpath.2, ?_⟩
      intro q hq f' hf'
      cases q with
      | nil => exact hnone f' hf'
      | cons i rest => exact hfirst _ hq f' ⟨List.cons_ne_nil i rest, hf'⟩
    | ok u =>
      rw [hw] at h
      intro path f hf
      cases path with
      | nil => exact hnone f hf
      | cons i rest => exact h _ f ⟨List.cons_ne_nil i rest, hf⟩

theorem rejectsAmong_zero {e : Json} {es : List Json} {path : List Nat}
    {f : Scalar.EnvelopeFault} : RejectsAmong (e :: es) (0 :: path) f ↔ RejectsAt e path f := by
  constructor
  · rintro ⟨i, rest, d, hp, hd, hf⟩
    obtain ⟨rfl, rfl⟩ := List.cons.inj hp
    obtain rfl := Option.some.inj hd
    exact hf
  · intro hf
    exact ⟨0, path, e, rfl, rfl, hf⟩

theorem rejectsAmong_succ {e : Json} {es : List Json} {i : Nat} {path : List Nat}
    {f : Scalar.EnvelopeFault} :
    RejectsAmong (e :: es) ((i + 1) :: path) f ↔ RejectsAmong es (i :: path) f := by
  constructor
  · rintro ⟨j, rest, d, hp, hd, hf⟩
    obtain ⟨rfl, rfl⟩ := List.cons.inj hp
    exact ⟨i, path, d, rfl, hd, hf⟩
  · rintro ⟨j, rest, d, hp, hd, hf⟩
    obtain ⟨rfl, rfl⟩ := List.cons.inj hp
    exact ⟨i + 1, path, d, rfl, hd, hf⟩

theorem not_rejectsAmong_nil {items : List Json} {f : Scalar.EnvelopeFault} :
    ¬ RejectsAmong items [] f := by
  rintro ⟨i, rest, d, hp, -⟩
  exact nomatch hp

/-- a list of rules: the first one comes before all others -/
theorem finds_cons {e : Json} {es : List Json} {r : Except Scalar.EnvelopeFault Unit}
    (he : Finds r (RejectsAt e)) (hes : Finds (checkItems es) (RejectsAmong es)) :
    Finds (r >>= fun _ => checkItems es) (RejectsAmong (e :: es)) := by
  cases r with
  | error f =>
    obtain ⟨path, hpath, hfirst⟩ := he
    refine ⟨0 :: path, rejectsAmong_zero.mpr hpath, ?_⟩
    intro q hq f' hf'
    cases q with
    | nil => exact not_rejectsAmong_nil hf'
    | cons j rest =>
      obtain hj | ⟨rfl, hrest⟩ := List.cons_lt_cons_iff.mp hq
      · exact absurd hj (Nat.not_lt_zero j)
      · exact hfirst rest hrest f' (rejectsAmong_zero.mp hf')
  | ok u =>
    show Finds (checkItems es) (RejectsAmong (e :: es))
    cases hc : checkItems es with
    | error f =>
      rw [hc] at hes
      obtain ⟨path, hpath, hfirst⟩ := hes
      obtain ⟨i, rest, d, rfl, hd, hf⟩ := hpath
      refine ⟨(i + 1) :: rest, rejectsAmong_succ.mpr ⟨i, rest, d, rfl, hd, hf⟩, ?_⟩
      intro q hq f' hf'
      match q with
      | [] => exact not_rejectsAmong_nil hf'
      | 0 :: q => exact he q f' (rejectsAmong_zero.mp hf')
      | (j + 1) :: q =>
        refine hfirst (j :: q) ?_ f' (rejectsAmong_succ.mp hf')
        obtain hj | ⟨hj, hq⟩ := List.cons_lt_cons_iff.mp hq
        · exact List.cons_lt_cons_iff.mpr (.inl (Nat.lt_of_succ_lt_succ hj))
        · exact List.cons_lt_cons_iff.mpr (.inr ⟨Nat.succ.inj hj, hq⟩)
    | ok u =>
      rw [hc] at hes
      intro path f hf
      match path with
      | [] => exact not_rejectsAmong_nil hf
      | 0 :: q => exact he q f (rejectsAmong_zero.mp hf)
      | (j + 1) :: q => exact hes (j :: q) f (rejectsAmong_succ.mp hf)

theorem finds_checkItems {items : List Json}
    (h : ∀ e ∈ items, Finds (checkValues e) (Rejects e)) :
    Finds (checkItems items) (RejectsAmong items) := by
  induction items with
  | nil =>
    rintro path f ⟨i, rest, d, -, hd, -⟩
    exact nomatch hd
  | cons e es ih =>
    obtain ⟨he, hes⟩ := List.forall_mem_cons.mp h
    have hcons := finds_cons (finds_entry he) (ih hes)
    rw [checkItems]
    cases hv : checkValue e with
    | error f => rw [hv] at hcons; exact hcons
    | ok u => rw [hv] at hcons; exact hcons

/-- **The check of the values finds the first bad value in pre-order.** -/
theorem finds_checkValues (v : Json) : Finds (checkValues v) (Rejects v) := by
  induction v using Json.filters_induction with
  | h v ih =>
    have hitems := finds_checkItems ih
    rw [← checkValues_eq] at hitems
    cases hc : checkValues v with
    | error f =>
      rw [hc] at hitems
      obtain ⟨path, hpath, hfirst⟩ := hitems
      exact ⟨path, rejects_iff.mpr hpath, fun q hq f' hf' => hfirst q hq f' (rejects_iff.mp hf')⟩
    | ok u =>
      rw [hc] at hitems
      exact fun path f hf => hitems path f (rejects_iff.mp hf)

section
variable {v : Json}

theorem checkValues_eq_ok_iff : checkValues v = .ok () ↔ ∀ path f, ¬ Rejects v path f := by
  have hfinds := finds_checkValues v
  cases hc : checkValues v with
  | ok u =>
    rw [hc] at hfinds
    exact iff_of_true rfl hfinds
  | error f =>
    rw [hc] at hfinds
    obtain ⟨path, hpath, -⟩ := hfinds
    exact iff_of_false (fun h => (by cases h)) fun h => h path f hpath

theorem checkValues_eq_error_iff {f : Scalar.EnvelopeFault} :
    checkValues v = .error f ↔ ∃ path, Rejects v path f ∧ ∀ q < path, ∀ f', ¬ Rejects v q f' := by
  have hfinds := finds_checkValues v
  constructor
  · intro h
    rw [h] at hfinds
    exact hfinds
  · rintro ⟨path, hpath, hfirst⟩
    cases hc : checkValues v with
    | ok u => exact absurd hpath (checkValues_eq_ok_iff.mp hc path f)
    | error f' =>
      rw [hc] at hfinds
      obtain ⟨path', hpath', hfirst'⟩ := hfinds
      -- both paths are the first one
      rcases lt_trichotomy path path' with hlt | rfl | hlt
      · exact absurd hpath (hfirst' path hlt f)
      · rw [hpath.2.unique hpath'.2]
      · exact absurd hpath' (hfirst path' hlt f')

end

/-! ## texts -/

section
variable {s : String} (hs : s.utf8ByteSize ≤ maxSize)
include hs

theorem load_of_parse {v : Json} (hv : Json.parseText s = .ok v) : load s = ofJson v := by
  rw [load, if_neg (Nat.not_lt.mpr hs), hv]
  rfl

theorem load_of_parse_error {f : Json.Fault} (hf : Json.parseText s = .error f) :
    load s = .error (.json f) := by
  rw [load, if_neg (Nat.not_lt.mpr hs), hf]
  rfl

end

end Document
end SavedFilter
