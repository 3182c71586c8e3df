import SavedFilter.Proofs.Document.ValueFaults

/-!
# What the check of the values refuses beside the reader

The reader looks at the keys of a rule that belong to its kind; the check of the values looks at
`value` and `filters` whatever the kind is.  So it sees values where no condition has one: the
`value` of a group, and all that stands under the `filters` of a condition.

* `ReadAs`           a JSON value is read as a rule, below the root or as the root;
* `ReadAs.item`      a group is read item by item;
* `ReadAs.at?`       so what is read at a path is read from what stands there;
* `StrayValue`       a bad value of a group, or below a condition;
* `Rejects.stray`    of a document that is read only such values are refused;
* `OwnKeys`          conditions have no items in `filters`, and groups no `value`;
* `load_eq_read`     loading is reading, up to the depth and the stray values.
-/

namespace SavedFilter
namespace Json

theorem at?_append (v : Json) (p q : List Nat) :
    v.at? (p ++ q) = (v.at? p).bind fun e => e.at? q := by
  induction p generalizing v with
  | nil => rfl
  | cons i p ih =>
    rw [List.cons_append, at?_cons, at?_cons, Option.bind_assoc]
    exact congrArg _ (funext ih)

theorem filters_ne_nil {v e : Json} {i : Nat} (h : v.filters[i]? = some e) : v.filters ≠ [] :=
  List.ne_nil_of_mem (List.mem_of_getElem? h)

end Json

namespace Document

/-! ## what a value is read as -/

/-- a rule is read from the value, which stands within a document or is the root of one -/
inductive ReadAs (v : Json) : Rule → Prop
  | rule {inner : Bool} {r : Rule} : Shape.rule inner v = .ok r → ReadAs v r
  | root {g : Group} : Group.ofJson v = .ok g → ReadAs v g.toRule

section
variable {v : Json} (hw : v.Writable)
include hw

/-- a condition has the value of its `value` -/
theorem ReadAs.value {c : Condition} {raw : Json} (h : ReadAs v (.condition c))
    (hraw : v.get? "value" = some raw) : Scalar.ofEnvelope raw = .ok c.value := by
  cases v with
  | obj ms =>
    cases h with
    | rule h =>
      rcases Shape.rule_ok h with ⟨c', hc', h⟩ | ⟨g, hg, -⟩
      · obtain rfl := Rule.condition.inj hc'
        exact (Shape.conditionOfMembers_ok hw.1 h).2 raw hraw
      · cases hg
  | _ => cases hraw

/-- the members of a group are read from its `filters`, if there are any -/
theorem ReadAs.filters {join : Join} {rs : List Rule} {tag : Option String}
    (h : ReadAs v (.group join rs tag)) (hv : v.filters ≠ []) :
    List.Forall₂ ReadAs v.filters rs := by
  cases v with
  | obj ms =>
    have hrules : ∃ inner, Shape.rules inner (Json.obj ms).filters = .ok rs := by
      generalize hr : Rule.group join rs tag = r at h
      cases h with
      | rule h =>
        rcases Shape.rule_ok h with ⟨c, rfl, -⟩ | ⟨g, rfl, hg⟩
        · cases hr
        · obtain ⟨-, rfl, -⟩ := Rule.group.inj hr
          exact ⟨true, filters_of_group hw.1 hg⟩
      | root h =>
        obtain ⟨-, rfl, -⟩ := Rule.group.inj hr
        exact ⟨false, filters_of_group hw.1 h⟩
    obtain ⟨inner, hrules⟩ := hrules
    exact (Shape.rules_ok hrules).imp fun _ _ => ReadAs.rule
  | _ => exact absurd rfl hv

/-- each item of the `filters` of a group is read as its member at the same place -/
theorem ReadAs.item {join : Join} {rs : List Rule} {tag : Option String} {i : Nat} {d : Json}
    (h : ReadAs v (.group join rs tag)) (hd : v.filters[i]? = some d) :
    d.Writable ∧ ∃ t, rs[i]? = some t ∧ ReadAs d t := by
  have hread := List.forall₂_iff_get.mp (h.filters hw (Json.filters_ne_nil hd))
  obtain ⟨hi, rfl⟩ := List.getElem?_eq_some_iff.mp hd
  have hj : i < rs.length := hread.1 ▸ hi
  exact ⟨Json.writable_of_mem_filters hw (List.getElem_mem hi), rs[i],
    List.getElem?_eq_getElem hj, hread.2 i hi hj⟩

end

/-- what is read at a path is read from what stands there -/
theorem ReadAs.at? {path : List Nat} {v e : Json} {r s : Rule} (hw : v.Writable) (h : ReadAs v r)
    (he : v.at? path = some e) (hs : r.at? path = some s) : e.Writable ∧ ReadAs e s := by
  induction path generalizing v r with
  | nil =>
    obtain rfl := Option.some.inj he
    obtain rfl := Option.some.inj hs
    exact ⟨hw, h⟩
  | cons i path ih =>
    obtain ⟨d, hd, he⟩ := Option.bind_eq_some_iff.mp he
    cases r with
    | condition c => cases hs
    | group join rs tag =>
      obtain ⟨t, ht, hs⟩ := Option.bind_eq_some_iff.mp hs
      obtain ⟨hdw, t', ht', hread⟩ := h.item hw hd
      obtain rfl := Option.some.inj (ht.symm.trans ht')
      exact ih hdw hread he hs

/-- a path of the document leads to a rule, or through the `filters` of a condition -/
theorem ReadAs.at?_or_below {path : List Nat} {v e : Json} {r : Rule} (hw : v.Writable)
    (h : ReadAs v r) (he : v.at? path = some e) :
    (∃ s, r.at? path = some s) ∨
      ∃ q i rest c, path = q ++ i :: rest ∧ r.at? q = some (.condition c) := by
  induction path generalizing v r with
  | nil => exact .inl ⟨r, rfl⟩
  | cons i path ih =>
    obtain ⟨d, hd, he⟩ := Option.bind_eq_some_iff.mp he
    cases r with
    | condition c => exact .inr ⟨[], i, path, c, rfl, rfl⟩
    | group join rs tag =>
      obtain ⟨hdw, t, ht, hread⟩ := h.item hw hd
      rcases ih hdw hread he with ⟨s, hs⟩ | ⟨q, k, rest, c, rfl, hc⟩
      · exact .inl ⟨s, Option.bind_eq_some_iff.mpr ⟨t, ht, hs⟩⟩
      · exact .inr ⟨i :: q, k, rest, c, rfl, Option.bind_eq_some_iff.mpr ⟨t, ht, hc⟩⟩

/-! ## stray values -/

/-- a bad value that is none of a condition: it is that of a group, or stands below a condition -/
def StrayValue (v : Json) (r : Rule) (path : List Nat) (f : Scalar.EnvelopeFault) : Prop :=
  Rejects v path f ∧ ((∃ join rs tag, r.at? path = some (.group join rs tag)) ∨
    ∃ q i rest c, path = q ++ i :: rest ∧ r.at? q = some (.condition c))

/-- the values of the conditions that are read are good, so that all bad ones are stray -/
theorem Rejects.stray {v : Json} {r : Rule} {path : List Nat} {f : Scalar.EnvelopeFault}
    (hw : v.Writable) (h : ReadAs v r) (hf : Rejects v path f) : StrayValue v r path f := by
  refine ⟨hf, ?_⟩
  obtain ⟨-, e, raw, he, hraw, hf⟩ := hf
  rcases h.at?_or_below hw he with ⟨s, hs⟩ | hbelow
  · cases s with
    | condition c =>
      obtain ⟨hew, hread⟩ := h.at? hw he hs
      cases hf.symm.trans (hread.value hew hraw)
    | group join rs tag => exact .inl ⟨join, rs, tag, hs⟩
  · exact .inr hbelow

/-- a condition has no items in `filters`, and a group below the root no `value` -/
structure OwnKeys (v : Json) (r : Rule) : Prop where
  condition : ∀ path e c, v.at? path = some e → r.at? path = some (.condition c) → e.filters = []
  group : ∀ path e join rs tag, path ≠ [] → v.at? path = some e →
    r.at? path = some (.group join rs tag) → e.get? "value" = none

theorem OwnKeys.no_stray {v : Json} {r : Rule} (h : OwnKeys v r) (path : List Nat)
    (f : Scalar.EnvelopeFault) : ¬ StrayValue v r path f := by
  rintro ⟨⟨hne, e, raw, he, hraw, -⟩, ⟨join, rs, tag, hs⟩ | ⟨q, i, rest, c, rfl, hc⟩⟩
  · cases (h.group path e join rs tag hne he hs).symm.trans hraw
  · rw [Json.at?_append] at he
    obtain ⟨d, hd, he⟩ := Option.bind_eq_some_iff.mp he
    obtain ⟨d', hd', -⟩ := Option.bind_eq_some_iff.mp he
    exact Json.filters_ne_nil hd' (h.condition q d c hd hc)

/-! ## loading -/

section
variable {s : String} {v : Json} (hs : s.utf8ByteSize ≤ maxSize) (hv : Json.parseText s = .ok v)
include hs hv

/-- the check, the reader and the depth, one by one -/
theorem load_eq_ok_iff {g : Group} :
    load s = .ok g ↔
      (∀ path f, ¬ Rejects v path f) ∧ Group.ofJson v = .ok g ∧ g.depth ≤ maxDepth := by
  rw [load_of_parse hs hv, ofJson]
  constructor
  · intro h
    obtain ⟨u, hu, h⟩ := bind_eq_ok.mp h
    obtain ⟨g', hg', h⟩ := bind_eq_ok.mp h
    split_ifs at h with hdeep
    rw [← Except.ok.inj h]
    exact ⟨checkValues_eq_ok_iff.mp (mapError_eq_ok.mp hu), mapError_eq_ok.mp hg',
      Nat.not_lt.mp hdeep⟩
  · rintro ⟨hnone, hg, hdepth⟩
    rw [checkValues_eq_ok_iff.mpr hnone, hg]
    exact if_neg (Nat.not_lt.mpr hdepth)

end

/-- a group with the value of a condition, which the reader does not look at -/
def groupWithValue : Json :=
  .obj [("filters", .arr [.obj [("type", .str "group"), ("value", .bool true)]])]

theorem parse_groupWithValue :
    groupWithValue.compactText.utf8ByteSize ≤ maxSize ∧
      Json.parseText groupWithValue.compactText = .ok groupWithValue := by
  constructor
  · exact le_trans (utf8ByteSize_ofList_le _) (by decide +kernel)
  · exact Json.parseText_compactText (by simp [groupWithValue, Json.Writable,
      Json.MembersWritable, Json.AllWritable]) (by decide)

/-- **Loading is reading, but for stray values.**  A document of allowed size that is JSON is loaded
as a tree if and only if it is read as this tree, the depth is allowed, and no bad value stands
where the tree has no condition.  Such a value is the only reason not to load what is read, and its
fault is what is told then.  Where every rule has the keys of its kind there is none. -/
theorem load_eq_read {s : String} {v : Json} (hs : s.utf8ByteSize ≤ maxSize)
    (hv : Json.parseText s = .ok v) (g : Group) :
    (load s = .ok g ↔ Group.ofJson v = .ok g ∧ g.depth ≤ maxDepth ∧
      ∀ path f, ¬ StrayValue v g.toRule path f) ∧
    (Group.ofJson v = .ok g → g.depth ≤ maxDepth →
      (load s = .ok g ∨ ∃ path f, load s = .error (.value f) ∧ StrayValue v g.toRule path f) ∧
      (OwnKeys v g.toRule → load s = .ok g)) := by
  have hw : v.Writable := Json.writable_of_parse hv
  have hiff : load s = .ok g ↔ Group.ofJson v = .ok g ∧ g.depth ≤ maxDepth ∧
      ∀ path f, ¬ StrayValue v g.toRule path f := by
    rw [load_eq_ok_iff hs hv]
    constructor
    · rintro ⟨hnone, hg, hdepth⟩
      exact ⟨hg, hdepth, fun path f hf => hnone path f hf.1⟩
    · rintro ⟨hg, hdepth, hnone⟩
      exact ⟨fun path f hf => hnone path f (hf.stray hw (.root hg)), hg, hdepth⟩
  refine ⟨hiff, fun hg hdepth => ⟨?_, fun hown => ?_⟩⟩
  · by_cases hvalue : ∃ f, load s = .error (.value f)
    · obtain ⟨f, hf⟩ := hvalue
      obtain ⟨path, hpath, -⟩ := checkValues_eq_error_iff.mp ((load_eq_value_iff hs hv).mp hf)
      exact .inr ⟨path, f, hf, hpath.stray hw (.root hg)⟩
    · refine .inl (hiff.mpr ⟨hg, hdepth, fun path f hf => hvalue ?_⟩)
      exact (exists_load_value_iff hs hv).mpr ⟨path, f, hf.1⟩
  · exact hiff.mpr ⟨hg, hdepth, hown.no_stray⟩

/-- a document with the keys of its kinds, and one with the value of a group -/
theorem load_eq_read_of_two :
    let own : Json := .obj [("filters", .arr [.obj [("type", .str "group"), ("filters", .arr [
      .obj [("type", .str "filter"), ("value", .arr [.str "bool", .bool true])]])]])]
    let g : Group := ⟨.and, [.group .and [.condition ⟨"", "", .bool true, none⟩] none], none⟩
    let h : Group := ⟨.and, [.group .and [] none], none⟩
    (own.compactText.utf8ByteSize ≤ maxSize ∧ Json.parseText own.compactText = .ok own ∧
      Group.ofJson own = .ok g ∧ g.depth ≤ maxDepth ∧ OwnKeys own g.toRule ∧
      load own.compactText = .ok g) ∧
    groupWithValue.compactText.utf8ByteSize ≤ maxSize ∧
      Json.parseText groupWithValue.compactText = .ok groupWithValue ∧
      Group.ofJson groupWithValue = .ok h ∧ h.depth ≤ maxDepth ∧
      StrayValue groupWithValue h.toRule [0] (.bare "boolean") ∧
      load groupWithValue.compactText ≠ .ok h := by
  intro own g h
  have hown : Json.parseText own.compactText = .ok own :=
    Json.parseText_compactText (by simp [own, Json.Writable, Json.MembersWritable,
      Json.AllWritable]) (by decide)
  have howns : own.compactText.utf8ByteSize ≤ maxSize :=
    le_trans (utf8ByteSize_ofList_le _) (by decide +kernel)
  have hkeys : OwnKeys own g.toRule := by
    -- the only condition stands at `[0, 0]`, and groups at `[]` and `[0]`
    constructor
    · intro path e c he hc
      rcases path with _ | ⟨_ | i, _ | ⟨_ | j, _ | ⟨k, path⟩⟩⟩ <;> cases hc
      cases he
      rfl
    · intro path e join rs tag hne he hs
      rcases path with _ | ⟨_ | i, _ | ⟨_ | j, _ | ⟨k, path⟩⟩⟩ <;> cases hs
      · exact absurd rfl hne
      · cases he
        rfl
  have hvalue : StrayValue groupWithValue h.toRule [0] (.bare "boolean") :=
    ⟨⟨by simp, _, .bool true, rfl, rfl, rfl⟩, .inl ⟨.and, [], none, rfl⟩⟩
  obtain ⟨hsize, hparse⟩ := parse_groupWithValue
  refine ⟨⟨howns, hown, rfl, by decide, hkeys, ?_⟩, hsize, hparse, rfl, by decide, hvalue, ?_⟩
  · exact ((load_eq_read howns hown g).2 rfl (by decide)).2 hkeys
  · intro hload
    exact ((load_eq_read hsize hparse h).1.mp hload).2.2 [0] _ hvalue

/-- reading and the depth alone do not tell what is loaded -/
theorem exists_read_not_loaded :
    ¬ ∀ s v, s.utf8ByteSize ≤ maxSize → Json.parseText s = .ok v → ∀ g,
      (load s = .ok g ↔ Group.ofJson v = .ok g ∧ g.depth ≤ maxDepth) := by
  intro hall
  obtain ⟨hsize, hparse⟩ := parse_groupWithValue
  have hload : load groupWithValue.compactText = .ok ⟨.and, [.group .and [] none], none⟩ :=
    (hall _ groupWithValue hsize hparse _).mpr ⟨rfl, by decide⟩
  have hfault : load groupWithValue.compactText = .error (.value (.bare "boolean")) :=
    load_of_parse hsize hparse
  cases hload.symm.trans hfault

end Document
end SavedFilter
