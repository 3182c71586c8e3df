import SavedFilter.Proofs.Json.Lookups
import SavedFilter.Proofs.Rule.Reading

/-!
# Reading an object key by key

The members of an object are read in the order of the document, and each decides one part of what is
read.  Where keys stand once, the order does not matter: the whole is read if and only if every part
can be read from the value of its key (`conditionOfMembers_eq_ok_iff`, `groupOfMembers_eq_ok_iff`).
An array is read as the object that has its items under the keys in their order.
-/

namespace SavedFilter.Shape
open Json

/-- what stands under a key is read as `x`, or there is nothing and `x` is what is taken instead -/
def ReadsAs {α : Type} (read : Json → Except ShapeFault α) (absent : α) : Option Json → α → Prop
  | none, x => x = absent
  | some v, x => read v = .ok x

def readRules (inner : Bool) : Json → Except ShapeFault (List Rule)
  | .arr items => rules inner items
  | v => .error (.unexpected v .items)

section
variable {α : Type} {read : Json → Except ShapeFault α} {absent x : α} {v : Json}

theorem readsAs_none : ReadsAs read absent none x ↔ x = absent := Iff.rfl
theorem readsAs_some : ReadsAs read absent (some v) x ↔ read v = .ok x := Iff.rfl

end

/-! ## conditions -/

/-- where keys stand once, each part of a condition is read from its own key -/
theorem conditionOfMembers_eq_ok_iff {c d : Condition} {ms : List (String × Json)}
    (hk : (ms.map Prod.fst).Nodup) :
    conditionOfMembers c ms = .ok d ↔
      ReadsAs text c.field (ms.lookup "field") d.field ∧
      ReadsAs text c.operator (ms.lookup "operator") d.operator ∧
      ReadsAs value c.value (ms.lookup "value") d.value ∧
      ReadsAs tag c.tag (ms.lookup "id") d.tag := by
  induction ms generalizing c with
  | nil =>
    obtain ⟨field, operator, value, tag⟩ := c
    obtain ⟨field', operator', value', tag'⟩ := d
    simp [conditionOfMembers, readsAs_none, eq_comm]
  | cons m ms ih =>
    obtain ⟨key, v⟩ := m
    obtain ⟨hnot, hms⟩ := List.nodup_cons.mp hk
    have hnone := lookup_eq_none hnot
    rw [conditionOfMembers, bind_eq_ok]
    simp only [ih hms]
    -- the key decides its own part, and is not met again
    by_cases hfield : key = "field"
    · subst hfield
      simp [setConditionMember, map_eq_ok, readsAs_none, readsAs_some, hnone, List.lookup_cons]
    by_cases hoperator : key = "operator"
    · subst hoperator
      simp [setConditionMember, map_eq_ok, readsAs_none, readsAs_some, hnone, List.lookup_cons]
      tauto
    by_cases hvalue : key = "value"
    · subst hvalue
      simp [setConditionMember, map_eq_ok, readsAs_none, readsAs_some, hnone, List.lookup_cons]
      tauto
    by_cases htag : key = "id"
    · subst htag
      simp [setConditionMember, map_eq_ok, readsAs_none, readsAs_some, hnone, List.lookup_cons]
      tauto
    · simp [setConditionMember, hfield, hoperator, hvalue, htag,
        lookup_cons_of_ne (Ne.symm hfield), lookup_cons_of_ne (Ne.symm hoperator),
        lookup_cons_of_ne (Ne.symm hvalue), lookup_cons_of_ne (Ne.symm htag)]

/-! ## groups -/

theorem setGroupMember_eq (inner : Bool) (g : Group) (key : String) (v : Json) :
    setGroupMember inner g key v =
      if key = "logic" then (join inner v).map fun j => { g with join := j }
      else if key = "filters" then (readRules inner v).map fun rs => { g with members := rs }
      else if key = "id" then (tag v).map fun t => { g with tag := t }
      else .ok g := by
  cases v with
  | arr items =>
    rw [setGroupMember, setPlainMember, readRules]
    split_ifs with hfilters hlogic
    · exact absurd (hfilters.symm.trans hlogic) (by decide)
    all_goals rfl
  | _ => rfl

theorem groupOfMembers_eq_ok_iff {inner : Bool} {g h : Group} {ms : List (String × Json)}
    (hk : (ms.map Prod.fst).Nodup) :
    groupOfMembers inner g ms = .ok h ↔
      ReadsAs (join inner) g.join (ms.lookup "logic") h.join ∧
      ReadsAs (readRules inner) g.members (ms.lookup "filters") h.members ∧
      ReadsAs tag g.tag (ms.lookup "id") h.tag := by
  induction ms generalizing g with
  | nil =>
    obtain ⟨join, members, tag⟩ := g
    obtain ⟨join', members', tag'⟩ := h
    simp [groupOfMembers, readsAs_none, eq_comm]
  | cons m ms ih =>
    obtain ⟨key, v⟩ := m
    obtain ⟨hnot, hms⟩ := List.nodup_cons.mp hk
    have hnone := lookup_eq_none hnot
    rw [groupOfMembers, bind_eq_ok, setGroupMember_eq]
    simp only [ih hms]
    by_cases hlogic : key = "logic"
    · subst hlogic
      simp [map_eq_ok, readsAs_none, readsAs_some, hnone, List.lookup_cons]
    by_cases hfilters : key = "filters"
    · subst hfilters
      simp [map_eq_ok, readsAs_none, readsAs_some, hnone, List.lookup_cons]
      tauto
    by_cases htag : key = "id"
    · subst htag
      simp [map_eq_ok, readsAs_none, readsAs_some, hnone, List.lookup_cons]
      tauto
    · simp [hlogic, hfilters, htag, lookup_cons_of_ne (Ne.symm hlogic),
        lookup_cons_of_ne (Ne.symm hfilters), lookup_cons_of_ne (Ne.symm htag)]

/-! ## arrays -/

/-- items are read as members under the keys at their places -/
theorem groupOfItems_eq (inner : Bool) (g : Group) (keys : List String) (items : List Json) :
    groupOfItems inner g keys items = groupOfMembers inner g (keys.zip items) := by
  induction keys generalizing g items with
  | nil => simp [groupOfItems, groupOfMembers]
  | cons key keys ih =>
    cases items with
    | nil => simp [groupOfItems, groupOfMembers]
    | cons v vs =>
      rw [groupOfItems, List.zip_cons_cons, groupOfMembers]
      exact congrArg _ (funext fun g => ih g vs)

theorem map_fst_zip_sublist (keys : List String) (items : List Json) :
    ((keys.zip items).map Prod.fst).Sublist keys := by
  induction keys generalizing items with
  | nil => exact List.Sublist.refl []
  | cons key keys ih =>
    cases items with
    | nil => exact List.nil_sublist _
    | cons v vs => exact (ih vs).cons_cons key

theorem nodup_zip {keys : List String} (h : keys.Nodup) (items : List Json) :
    ((keys.zip items).map Prod.fst).Nodup := h.sublist (map_fst_zip_sublist keys items)

/-! ## rules -/

section
variable {inner : Bool} {r : Rule} {items : List Json}

theorem rule_obj_eq_ok_iff {ms : List (String × Json)} :
    rule inner (.obj ms) = .ok r ↔ ∃ t, ms.lookup "type" = some t ∧
      ((kind inner t = .ok .condition ∧
          ∃ c, conditionOfMembers .blank ms = .ok c ∧ .condition c = r) ∨
        (kind inner t = .ok .group ∧
          ∃ g, groupOfMembers true (.empty .and) ms = .ok g ∧ g.toRule = r)) := by
  rw [rule]
  cases ms.lookup "type" with
  | none =>
    constructor
    · intro h
      cases h
    · rintro ⟨t, ht, -⟩
      cases ht
  | some t =>
    simp only [bind_eq_ok, Option.some.injEq, exists_eq_left']
    constructor
    · rintro ⟨k, hk, h⟩
      cases k with
      | condition => exact .inl ⟨hk, map_eq_ok.mp h⟩
      | group => exact .inr ⟨hk, map_eq_ok.mp h⟩
    · rintro (⟨hk, h⟩ | ⟨hk, h⟩)
      · exact ⟨.condition, hk, map_eq_ok.mpr h⟩
      · exact ⟨.group, hk, map_eq_ok.mpr h⟩

theorem conditionOfItems_eq_ok_iff {c : Condition} :
    conditionOfItems items = .ok c ↔ items.length ≤ conditionKeys.length ∧
      conditionOfMembers .blank (conditionKeys.zip items) = .ok c := by
  rw [conditionOfItems, bind_eq_ok]
  constructor
  · rintro ⟨d, hd, h⟩
    split_ifs at h with hlong
    exact ⟨Nat.not_lt.mp hlong, hd.trans h⟩
  · rintro ⟨hlong, h⟩
    exact ⟨c, h, if_neg (Nat.not_lt.mpr hlong)⟩

theorem rule_arr_eq_ok_iff {t : Json} :
    rule inner (.arr (t :: items)) = .ok r ↔
      (kind inner t = .ok .condition ∧ items.length ≤ conditionKeys.length ∧
          ∃ c, conditionOfMembers .blank (conditionKeys.zip items) = .ok c ∧ .condition c = r) ∨
        (kind inner t = .ok .group ∧ items.length ≤ groupKeys.length ∧
          ∃ g, groupOfMembers true (.empty .and) (groupKeys.zip items) = .ok g ∧ g.toRule = r) := by
  rw [rule, bind_eq_ok]
  constructor
  · rintro ⟨k, hk, h⟩
    cases k with
    | condition =>
      obtain ⟨c, hc, hr⟩ := map_eq_ok.mp h
      obtain ⟨hlong, hc⟩ := conditionOfItems_eq_ok_iff.mp hc
      exact .inl ⟨hk, hlong, c, hc, hr⟩
    | group =>
      obtain ⟨g, hg, h⟩ := bind_eq_ok.mp h
      rw [groupOfItems_eq] at hg
      split_ifs at h with hlong
      exact .inr ⟨hk, Nat.not_lt.mp hlong, g, hg, Except.ok.inj h⟩
  · rintro (⟨hk, hlong, c, hc, hr⟩ | ⟨hk, hlong, g, hg, hr⟩)
    · exact ⟨.condition, hk, map_eq_ok.mpr ⟨c, conditionOfItems_eq_ok_iff.mpr ⟨hlong, hc⟩, hr⟩⟩
    · refine ⟨.group, hk, ?_⟩
      rw [← hr]
      exact bind_eq_ok.mpr ⟨g, by rwa [groupOfItems_eq], if_neg (Nat.not_lt.mpr hlong)⟩

theorem ofJson_arr_eq_ok_iff {g : Group} :
    Group.ofJson (.arr items) = .ok g ↔ items.length ≤ groupKeys.length ∧
      groupOfMembers false (.empty .and) (groupKeys.zip items) = .ok g := by
  rw [Group.ofJson, bind_eq_ok]
  simp only [groupOfItems_eq]
  constructor
  · rintro ⟨h, hh, hg⟩
    split_ifs at hg with hlong
    exact ⟨Nat.not_lt.mp hlong, hh.trans hg⟩
  · rintro ⟨hlong, h⟩
    exact ⟨g, h, if_neg (Nat.not_lt.mpr hlong)⟩

end
end SavedFilter.Shape
