import Mathlib.Data.List.Forall2
import Mathlib.Tactic.SplitIfs
import SavedFilter.Proofs.Except
import SavedFilter.Rule.Shape

/-!
# What reading a rule looks at

Members are read one after another.  A condition takes its value from the member `value`, and a
group its members from `filters`; no other member of an object has a say in them.  Where keys stand
once this gives

* `foldlM_lookup`                                      what one key decides is decided by its value;
* `conditionOfMembers_ok`, `groupOfMembers_ok`         what is read into a condition and a group;
* `conditionOfMembers_error`, `groupOfMembers_error`   a value fault comes from a `value`, or from a
                                                       rule among the `filters`;
* `rules_ok`, `rules_error`                            rules are read one by one.
-/

namespace SavedFilter
namespace Shape

/-! ## one member after another -/

section
variable {α β : Type} {set : α → String → Json → Except ShapeFault α} {a b : α}
  {ms : List (String × Json)} {key : String} {part : α → β}

/-- a part that only the member `key` can change is what that member makes of it -/
theorem foldlM_lookup (hother : ∀ k v c d, k ≠ key → set c k v = .ok d → part d = part c)
    (hk : (ms.map Prod.fst).Nodup) (h : ms.foldlM (fun c m => set c m.1 m.2) a = .ok b) :
    (ms.lookup key = none → part b = part a) ∧
      ∀ v, ms.lookup key = some v → ∃ c d, set c key v = .ok d ∧ part b = part d := by
  induction ms generalizing a with
  | nil =>
    rw [← Except.ok.inj h]
    exact ⟨fun _ => rfl, fun v hv => (by cases hv)⟩
  | cons m ms ih =>
    obtain ⟨k, w⟩ := m
    obtain ⟨hnot, hms⟩ := List.nodup_cons.mp hk
    rw [List.foldlM_cons] at h
    obtain ⟨c, hc, hrest⟩ := bind_eq_ok.mp h
    by_cases hkey : key = k
    · -- the key is not met again
      subst hkey
      have hb : part b = part c := by
        refine foldlM_frame (fun n hn d e hd => hother n.1 n.2 d e ?_ hd) hrest
        rintro rfl
        exact hnot (List.mem_map.mpr ⟨n, hn, rfl⟩)
      rw [List.lookup_cons_self]
      refine ⟨fun hnone => (by cases hnone), ?_⟩
      rintro v hv
      obtain rfl := Option.some.inj hv
      exact ⟨a, c, hc, hb⟩
    · have hne : (key == k) = false := beq_eq_false_iff_ne.mpr hkey
      obtain ⟨hnone, hsome⟩ := ih hms hrest
      rw [List.lookup_cons, hne]
      exact ⟨fun hn => (hnone hn).trans (hother k w a c (Ne.symm hkey) hc), hsome⟩

end

theorem conditionOfMembers_eq (c : Condition) (ms : List (String × Json)) :
    conditionOfMembers c ms = ms.foldlM (fun c m => setConditionMember c m.1 m.2) c := by
  induction ms generalizing c with
  | nil => rfl
  | cons m ms ih =>
    rw [List.foldlM_cons, conditionOfMembers]
    exact congrArg _ (funext ih)

theorem groupOfMembers_eq (inner : Bool) (g : Group) (ms : List (String × Json)) :
    groupOfMembers inner g ms = ms.foldlM (fun g m => setGroupMember inner g m.1 m.2) g := by
  induction ms generalizing g with
  | nil => rfl
  | cons m ms ih =>
    rw [List.foldlM_cons, groupOfMembers]
    exact congrArg _ (funext ih)

/-! ## members that are no values -/

section
variable {f : Scalar.EnvelopeFault}

theorem text_ne_value (v : Json) : text v ≠ .error (.value f) := by
  cases v <;> exact fun h => (by cases h)

theorem tag_ne_value (v : Json) : tag v ≠ .error (.value f) := by
  intro h
  unfold tag at h
  split at h
  · cases h
  · exact text_ne_value v (map_eq_error.mp h)

theorem joinOfName_ne_value (name : String) : joinOfName name ≠ .error (.value f) := by
  intro h
  unfold joinOfName at h
  split_ifs at h
  cases h

theorem joinContent_ne_value (inner : Bool) (v : Json) :
    joinContent inner v ≠ .error (.value f) := by
  intro h
  unfold joinContent at h
  split at h
  · cases h
  · split_ifs at h
    cases h
  · cases h

theorem join_ne_value (inner : Bool) (v : Json) : join inner v ≠ .error (.value f) := by
  intro h
  unfold join at h
  split at h
  · exact joinOfName_ne_value _ h
  · rcases bind_eq_error.mp h with h | ⟨j, -, h⟩
    · exact joinOfName_ne_value _ h
    · rcases bind_eq_error.mp h with h | ⟨u, -, h⟩
      · exact joinContent_ne_value _ _ h
      · cases h
  · cases h
  · cases h

theorem kind_ne_value (inner : Bool) (v : Json) : kind inner v ≠ .error (.value f) := by
  intro h
  unfold kind at h
  split at h
  · unfold kindOfName at h
    split_ifs at h
    cases h
  · unfold kindOfIndex at h
    split_ifs at h
    · cases h
    · cases h
  · cases h

end

/-! ## conditions -/

section
variable {c d : Condition} {key : String} {v : Json} {f : Scalar.EnvelopeFault}

theorem setConditionMember_error (h : setConditionMember c key v = .error (.value f)) :
    key = "value" ∧ Scalar.ofEnvelope v = .error f := by
  unfold setConditionMember at h
  split_ifs at h with h₁ h₂ h₃ h₄
  · exact absurd (map_eq_error.mp h) (text_ne_value v)
  · exact absurd (map_eq_error.mp h) (text_ne_value v)
  · obtain ⟨e, he, hf⟩ := mapError_eq_error.mp (map_eq_error.mp h)
    rw [ShapeFault.value.inj hf] at he
    exact ⟨h₃, he⟩
  · exact absurd (map_eq_error.mp h) (tag_ne_value v)

theorem setConditionMember_value (h : setConditionMember c "value" v = .ok d) :
    Scalar.ofEnvelope v = .ok d.value := by
  obtain ⟨x, hx, rfl⟩ := map_eq_ok.mp h
  exact mapError_eq_ok.mp hx

theorem setConditionMember_other (hk : key ≠ "value") (h : setConditionMember c key v = .ok d) :
    d.value = c.value := by
  unfold setConditionMember at h
  split_ifs at h with h₁ h₂ h₃
  · obtain ⟨s, -, rfl⟩ := map_eq_ok.mp h
    rfl
  · obtain ⟨s, -, rfl⟩ := map_eq_ok.mp h
    rfl
  · obtain ⟨t, -, rfl⟩ := map_eq_ok.mp h
    rfl
  · rw [← Except.ok.inj h]

/-- a value fault in the members of a condition is that of a `value` -/
theorem conditionOfMembers_error {ms : List (String × Json)}
    (h : conditionOfMembers c ms = .error (.value f)) :
    ∃ raw, ("value", raw) ∈ ms ∧ Scalar.ofEnvelope raw = .error f := by
  rw [conditionOfMembers_eq] at h
  obtain ⟨m, hm, d, hd⟩ := exists_of_foldlM_eq_error h
  obtain ⟨hk, hf⟩ := setConditionMember_error hd
  exact ⟨m.2, hk ▸ hm, hf⟩

/-- the value of a condition is that of the member `value`, or what it was without one -/
theorem conditionOfMembers_ok {ms : List (String × Json)} (hk : (ms.map Prod.fst).Nodup)
    (h : conditionOfMembers c ms = .ok d) :
    (ms.lookup "value" = none → d.value = c.value) ∧
      ∀ raw, ms.lookup "value" = some raw → Scalar.ofEnvelope raw = .ok d.value := by
  rw [conditionOfMembers_eq] at h
  have hother : ∀ k v c d, k ≠ "value" → setConditionMember c k v = .ok d → d.value = c.value :=
    fun _ _ _ _ hkey he => setConditionMember_other hkey he
  obtain ⟨hnone, hsome⟩ := foldlM_lookup hother hk h
  refine ⟨hnone, ?_⟩
  intro raw hraw
  obtain ⟨c', d', hset, hvalue⟩ := hsome raw hraw
  rw [hvalue]
  exact setConditionMember_value hset

end

/-! ## groups -/

section
variable {inner : Bool} {g h : Group} {key : String} {v : Json} {f : Scalar.EnvelopeFault}

theorem setPlainMember_ne_value : setPlainMember inner g key v ≠ .error (.value f) := by
  intro hr
  unfold setPlainMember at hr
  split_ifs at hr
  · exact join_ne_value inner v (map_eq_error.mp hr)
  · cases hr
  · exact tag_ne_value v (map_eq_error.mp hr)

theorem setPlainMember_ok (hr : setPlainMember inner g key v = .ok h) :
    key ≠ "filters" ∧ h.members = g.members := by
  unfold setPlainMember at hr
  split_ifs at hr with h₁ h₂ h₃
  · obtain ⟨j, -, rfl⟩ := map_eq_ok.mp hr
    exact ⟨h₁ ▸ by decide, rfl⟩
  · obtain ⟨t, -, rfl⟩ := map_eq_ok.mp hr
    exact ⟨h₂, rfl⟩
  · rw [← Except.ok.inj hr]
    exact ⟨h₂, rfl⟩

theorem setGroupMember_error (hr : setGroupMember inner g key v = .error (.value f)) :
    ∃ items, key = "filters" ∧ v = .arr items ∧ rules inner items = .error (.value f) := by
  cases v with
  | arr items =>
    rw [setGroupMember] at hr
    split_ifs at hr with hk
    · exact ⟨items, hk, rfl, map_eq_error.mp hr⟩
    · exact absurd hr setPlainMember_ne_value
  | _ => exact absurd hr setPlainMember_ne_value

theorem setGroupMember_filters (hr : setGroupMember inner g "filters" v = .ok h) :
    ∃ items, v = .arr items ∧ rules inner items = .ok h.members := by
  cases v with
  | arr items =>
    obtain ⟨rs, hrs, rfl⟩ := map_eq_ok.mp hr
    exact ⟨items, rfl, hrs⟩
  | _ => exact absurd rfl (setPlainMember_ok hr).1

theorem setGroupMember_other (hk : key ≠ "filters") (hr : setGroupMember inner g key v = .ok h) :
    h.members = g.members := by
  cases v with
  | arr items =>
    rw [setGroupMember, if_neg hk] at hr
    exact (setPlainMember_ok hr).2
  | _ => exact (setPlainMember_ok hr).2

/-- a value fault in the members of a group is that of a rule among the `filters` -/
theorem groupOfMembers_error {ms : List (String × Json)}
    (hr : groupOfMembers inner g ms = .error (.value f)) :
    ∃ items, ("filters", .arr items) ∈ ms ∧ rules inner items = .error (.value f) := by
  rw [groupOfMembers_eq] at hr
  obtain ⟨m, hm, h, hset⟩ := exists_of_foldlM_eq_error hr
  obtain ⟨items, hk, hv, hf⟩ := setGroupMember_error hset
  exact ⟨items, by rw [← hk, ← hv]; exact hm, hf⟩

/-- the members of a group are the rules of the member `filters`, or what they were without one -/
theorem groupOfMembers_ok {ms : List (String × Json)} (hk : (ms.map Prod.fst).Nodup)
    (hr : groupOfMembers inner g ms = .ok h) :
    (ms.lookup "filters" = none → h.members = g.members) ∧
      ∀ v, ms.lookup "filters" = some v →
        ∃ items, v = .arr items ∧ rules inner items = .ok h.members := by
  rw [groupOfMembers_eq] at hr
  have hother : ∀ k v g h, k ≠ "filters" → setGroupMember inner g k v = .ok h →
      h.members = g.members := fun _ _ _ _ hkey he => setGroupMember_other hkey he
  obtain ⟨hnone, hsome⟩ := foldlM_lookup hother hk hr
  refine ⟨hnone, ?_⟩
  intro v hv
  obtain ⟨g', h', hset, hmembers⟩ := hsome v hv
  rw [hmembers]
  exact setGroupMember_filters hset

end

/-! ## rules -/

section
variable {inner : Bool} {f : Scalar.EnvelopeFault}

theorem rules_error {items : List Json} {e : ShapeFault} (h : rules inner items = .error e) :
    ∃ v ∈ items, rule inner v = .error e := by
  induction items with
  | nil => cases h
  | cons v vs ih =>
    rcases bind_eq_error.mp h with h | ⟨r, -, h⟩
    · exact ⟨v, List.mem_cons_self, h⟩
    · rcases bind_eq_error.mp h with h | ⟨rs, -, h⟩
      · obtain ⟨w, hw, he⟩ := ih h
        exact ⟨w, List.mem_cons_of_mem v hw, he⟩
      · cases h

theorem rules_ok {items : List Json} {rs : List Rule} (h : rules inner items = .ok rs) :
    List.Forall₂ (fun v r => rule inner v = .ok r) items rs := by
  induction items generalizing rs with
  | nil =>
    rw [← Except.ok.inj h]
    exact .nil
  | cons v vs ih =>
    obtain ⟨r, hr, h⟩ := bind_eq_ok.mp h
    obtain ⟨ss, hss, h⟩ := bind_eq_ok.mp h
    rw [← Except.ok.inj h]
    exact .cons hr (ih hss)

theorem rule_error {ms : List (String × Json)} (h : rule inner (.obj ms) = .error (.value f)) :
    conditionOfMembers .blank ms = .error (.value f) ∨
      groupOfMembers true (.empty .and) ms = .error (.value f) := by
  rw [rule] at h
  split at h
  · cases h
  · rcases bind_eq_error.mp h with h | ⟨k, -, h⟩
    · exact absurd h (kind_ne_value inner _)
    · cases k with
      | condition => exact .inl (map_eq_error.mp h)
      | group => exact .inr (map_eq_error.mp h)

theorem rule_ok {ms : List (String × Json)} {r : Rule} (h : rule inner (.obj ms) = .ok r) :
    (∃ c, r = .condition c ∧ conditionOfMembers .blank ms = .ok c) ∨
      ∃ g : Group, r = g.toRule ∧ groupOfMembers true (.empty .and) ms = .ok g := by
  rw [rule] at h
  split at h
  · cases h
  · obtain ⟨k, -, h⟩ := bind_eq_ok.mp h
    cases k with
    | condition =>
      obtain ⟨c, hc, rfl⟩ := map_eq_ok.mp h
      exact .inl ⟨c, rfl, hc⟩
    | group =>
      obtain ⟨g, hg, rfl⟩ := map_eq_ok.mp h
      exact .inr ⟨g, rfl, hg⟩

end

end Shape
end SavedFilter
