import SavedFilter.Proofs.Document.Depth
import SavedFilter.Proofs.Document.FirstFault
import SavedFilter.Proofs.Json.Skip
import SavedFilter.Proofs.Rule.Preorder
import SavedFilter.Proofs.Rule.Reading

/-!
# Bad values are told apart from bad shapes

A document is walked twice: the check of the values sees only JSON, the reader of its shape sees
rules.  Where all rules are objects, both find the same values.

* `load_eq_value_iff`  a value fault is what the check of the values finds;
* `Carries`            a rule has the value, or as many members, as its JSON says;
* `rejects_of_rule`    when the reader stops at a value, there is a bad one;
* `reads_of_rule`      when it does not, each rule is found at the path of its JSON and carries it;
* `load_tells_values`  so a value never counts as a fault of the shape;
* `load_of_nesting`    but what is nested too deeply is refused before any value is looked at.
-/

namespace SavedFilter

namespace Json

/-- the value and all items of `filters` below it are objects -/
def AllObjects (v : Json) : Prop := ∀ path e, v.at? path = some e → ∃ ms, e = .obj ms

theorem at?_of_mem_filters {v e : Json} (h : e ∈ v.filters) :
    ∃ i : Nat, v.filters[i]? = some e ∧ ∀ path, v.at? (i :: path) = e.at? path := by
  obtain ⟨i, hi⟩ := List.getElem?_of_mem h
  refine ⟨i, hi, ?_⟩
  intro path
  rw [at?_cons, hi]
  rfl

theorem AllObjects.of_mem_filters {v e : Json} (hv : v.AllObjects) (h : e ∈ v.filters) :
    e.AllObjects := by
  obtain ⟨i, -, hi⟩ := at?_of_mem_filters h
  intro path d hd
  exact hv (i :: path) d ((hi path).trans hd)

theorem allObjects_obj {ms : List (String × Json)}
    (h : ∀ e ∈ (Json.obj ms).filters, e.AllObjects) : (Json.obj ms).AllObjects := by
  intro path d hd
  cases path with
  | nil => exact ⟨ms, (Option.some.inj hd).symm⟩
  | cons i path =>
    obtain ⟨e, he, hd⟩ := Option.bind_eq_some_iff.mp hd
    exact h e (List.mem_of_getElem? he) path d hd

end Json

namespace Document

/-! ## what the check gives -/

section
variable {s : String} {v : Json} (hs : s.utf8ByteSize ≤ maxSize) (hv : Json.parseText s = .ok v)
include hs hv

theorem load_eq_value_iff {f : Scalar.EnvelopeFault} :
    load s = .error (.value f) ↔ checkValues v = .error f := by
  rw [load_of_parse hs hv, ofJson]
  constructor
  · intro h
    rcases bind_eq_error.mp h with h | ⟨u, -, h⟩
    · obtain ⟨f', hf', hf⟩ := mapError_eq_error.mp h
      rw [hf', LoadFault.value.inj hf]
    · rcases bind_eq_error.mp h with h | ⟨g, -, h⟩
      · obtain ⟨f', -, hf⟩ := mapError_eq_error.mp h
        cases hf
      · split_ifs at h
        cases h
  · intro h
    rw [h]
    rfl

theorem exists_load_value_iff :
    (∃ f, load s = .error (.value f)) ↔ ∃ path f, Rejects v path f := by
  constructor
  · rintro ⟨f, hf⟩
    obtain ⟨path, hpath, -⟩ := checkValues_eq_error_iff.mp ((load_eq_value_iff hs hv).mp hf)
    exact ⟨path, f, hpath⟩
  · rintro ⟨path, f, hpath⟩
    cases hc : checkValues v with
    | ok u => exact absurd hpath (checkValues_eq_ok_iff.mp hc path f)
    | error f' => exact ⟨f', (load_eq_value_iff hs hv).mpr hc⟩

end

/-! ## where the reader stops at a value -/

section
variable {f : Scalar.EnvelopeFault} {ms : List (String × Json)} (hd : (ms.map Prod.fst).Nodup)
include hd

theorem rejects_of_condition {c : Condition}
    (h : Shape.conditionOfMembers c ms = .error (.value f)) : RejectsAt (.obj ms) [] f := by
  obtain ⟨raw, hraw, hf⟩ := Shape.conditionOfMembers_error h
  exact ⟨.obj ms, raw, rfl, Json.lookup_of_mem hd hraw, hf⟩

theorem rejects_of_group {inner : Bool} {g : Group}
    (h : Shape.groupOfMembers inner g ms = .error (.value f))
    (hentries : ∀ e ∈ (Json.obj ms).filters, Shape.rule inner e = .error (.value f) →
      ∃ path, RejectsAt e path f) : ∃ path, Rejects (.obj ms) path f := by
  obtain ⟨items, hitems, hf⟩ := Shape.groupOfMembers_error h
  have hfilters : (Json.obj ms).filters = items := by
    rw [Json.filters, Json.get?, Json.lookup_of_mem hd hitems]
  obtain ⟨e, he, hf⟩ := Shape.rules_error hf
  rw [← hfilters] at he
  obtain ⟨path, d, raw, hat, hraw⟩ := hentries e he hf
  obtain ⟨i, -, hi⟩ := Json.at?_of_mem_filters he
  exact ⟨i :: path, List.cons_ne_nil i path, d, raw, (hi path).trans hat, hraw⟩

end

/-- a rule that is not read because of a value has a bad value in it -/
theorem rejects_of_rule {f : Scalar.EnvelopeFault} (v : Json) :
    v.Writable → v.AllObjects → ∀ inner, Shape.rule inner v = .error (.value f) →
      ∃ path, RejectsAt v path f := by
  induction v using Json.filters_induction with
  | h v ih =>
    intro hw hobj inner hr
    obtain ⟨ms, rfl⟩ := hobj [] v rfl
    rcases Shape.rule_error hr with hr | hr
    · exact ⟨[], rejects_of_condition hw.1 hr⟩
    · obtain ⟨path, hpath⟩ := rejects_of_group hw.1 hr fun e he =>
        ih e he (Json.writable_of_mem_filters hw he) (hobj.of_mem_filters he) true
      exact ⟨path, hpath.2⟩

/-! ## what is read -/

/-- a condition has the value that its JSON has, null if there is none, and a group as many
members -/
def Carries (e : Json) : Rule → Prop
  | .condition c => Scalar.ofEnvelope ((e.get? "value").getD .null) = .ok c.value
  | .group _ members _ => members.length = e.filters.length

/-- every rule has its JSON at its path, and carries it -/
def Reads (v : Json) (r : Rule) : Prop :=
  ∀ path s, r.at? path = some s → ∃ e, v.at? path = some e ∧ Carries e s

section
variable {ms : List (String × Json)} (hd : (ms.map Prod.fst).Nodup)
include hd

theorem reads_of_condition {c : Condition}
    (h : Shape.conditionOfMembers .blank ms = .ok c) : Reads (.obj ms) (.condition c) := by
  intro path s hs
  cases path with
  | nil =>
    obtain rfl := Option.some.inj hs
    refine ⟨.obj ms, rfl, ?_⟩
    obtain ⟨hnone, hsome⟩ := Shape.conditionOfMembers_ok hd h
    show Scalar.ofEnvelope ((ms.lookup "value").getD .null) = .ok c.value
    cases hraw : ms.lookup "value" with
    | none => exact congrArg Except.ok (hnone hraw).symm
    | some raw => exact hsome raw hraw
  | cons i path => cases hs

theorem filters_of_group {inner : Bool} {g : Group}
    (h : Shape.groupOfMembers inner (.empty .and) ms = .ok g) :
    Shape.rules inner (Json.obj ms).filters = .ok g.members := by
  obtain ⟨hnone, hsome⟩ := Shape.groupOfMembers_ok hd h
  rw [Json.filters, Json.get?]
  cases hitems : ms.lookup "filters" with
  | none => exact congrArg Except.ok (hnone hitems).symm
  | some v =>
    obtain ⟨items, rfl, hrs⟩ := hsome v hitems
    exact hrs

theorem reads_of_group {inner : Bool} {g : Group}
    (h : Shape.groupOfMembers inner (.empty .and) ms = .ok g)
    (hentries : ∀ e ∈ (Json.obj ms).filters, ∀ r, Shape.rule inner e = .ok r → Reads e r) :
    Reads (.obj ms) g.toRule := by
  have hrules := Shape.rules_ok (filters_of_group hd h)
  intro path s hs
  cases path with
  | nil =>
    obtain rfl := Option.some.inj hs
    exact ⟨.obj ms, rfl, hrules.length_eq.symm⟩
  | cons i path =>
    obtain ⟨r, hr, hs⟩ := Option.bind_eq_some_iff.mp hs
    obtain ⟨hi, rfl⟩ := List.getElem?_eq_some_iff.mp hr
    have hi' : i < (Json.obj ms).filters.length := hrules.length_eq.symm ▸ hi
    obtain ⟨e, he, hcarries⟩ := hentries _ (List.getElem_mem hi') _ (hrules.get hi' hi) path s hs
    refine ⟨e, ?_, hcarries⟩
    rw [Json.at?_cons, List.getElem?_eq_getElem hi']
    exact he

end

/-- a rule that is read has its JSON at every path -/
theorem reads_of_rule (v : Json) :
    v.Writable → v.AllObjects → ∀ inner r, Shape.rule inner v = .ok r → Reads v r := by
  induction v using Json.filters_induction with
  | h v ih =>
    intro hw hobj inner r hr
    obtain ⟨ms, rfl⟩ := hobj [] v rfl
    rcases Shape.rule_ok hr with ⟨c, rfl, hc⟩ | ⟨g, rfl, hg⟩
    · exact reads_of_condition hw.1 hc
    · exact reads_of_group hw.1 hg fun e he =>
        ih e he (Json.writable_of_mem_filters hw he) (hobj.of_mem_filters he) true

/-! ## loading -/

/-- what the reader of the shape makes of a document without bad values -/
theorem load_of_no_rejects {s : String} {v : Json} (hs : s.utf8ByteSize ≤ maxSize)
    (hv : Json.parseText s = .ok v) (hnone : ∀ path f, ¬ Rejects v path f)
    (hobj : v.AllObjects) :
    (∃ f, load s = .error (.shape f) ∧ ∀ e, f ≠ .value e) ∨
      (∃ d, load s = .error (.tooDeep d)) ∨ ∃ g, load s = .ok g ∧ Reads v g.toRule := by
  have hw : v.Writable := Json.writable_of_parse hv
  obtain ⟨ms, rfl⟩ := hobj [] v rfl
  rw [load_of_parse hs hv, ofJson, checkValues_eq_ok_iff.mpr hnone]
  show (∃ f, ((Group.ofJson (.obj ms)).mapError LoadFault.shape >>= _) = _ ∧ _) ∨ _
  cases hg : Group.ofJson (.obj ms) with
  | error f =>
    refine .inl ⟨f, rfl, ?_⟩
    rintro e rfl
    obtain ⟨path, hpath⟩ := rejects_of_group hw.1 hg fun d hd =>
      rejects_of_rule d (Json.writable_of_mem_filters hw hd) (hobj.of_mem_filters hd) false
    exact hnone path e hpath
  | ok g =>
    refine .inr ?_
    by_cases hdeep : maxDepth < g.depth
    · exact .inl ⟨g.depth, if_pos hdeep⟩
    · refine .inr ⟨g, if_neg hdeep, ?_⟩
      exact reads_of_group hw.1 hg fun d hd =>
        reads_of_rule d (Json.writable_of_mem_filters hw hd) (hobj.of_mem_filters hd) false

/-- **Bad values are told apart from bad shapes.**  A document of allowed size that is JSON is
refused for a value when one of its rules has a bad one, and then for the first of these, whatever
else is wrong.  When there is none and all rules are objects, no value is the reason of a fault of
the shape, and in what is loaded every rule carries its JSON. -/
theorem load_tells_values {s : String} {v : Json} (hs : s.utf8ByteSize ≤ maxSize)
    (hv : Json.parseText s = .ok v) :
    (∀ f, load s = .error (.value f) ↔
      ∃ path, Rejects v path f ∧ ∀ q < path, ∀ f', ¬ Rejects v q f') ∧
    ((∃ f, load s = .error (.value f)) ↔ ∃ path f, Rejects v path f) ∧
    ((∀ path f, ¬ Rejects v path f) → v.AllObjects →
      (∃ f, load s = .error (.shape f) ∧ ∀ e, f ≠ .value e) ∨
        (∃ d, load s = .error (.tooDeep d)) ∨ ∃ g, load s = .ok g ∧ Reads v g.toRule) :=
  ⟨fun _ => (load_eq_value_iff hs hv).trans checkValues_eq_error_iff,
    exists_load_value_iff hs hv, load_of_no_rejects hs hv⟩

/-- a document with two bad values, an unknown join and a rule of an unknown kind, and one that is
loaded -/
theorem load_tells_values_of_two :
    let bad : Json := .obj [("logic", .str "xor"), ("filters", .arr [
      .obj [("type", .str "rule"), ("filters", .arr [.obj [("value", .bool true)]])],
      .obj [("type", .str "filter"), ("value", .arr [.str "money", .null])]])]
    let good : Json := .obj [("filters", .arr [
      .obj [("type", .str "filter"), ("value", .arr [.str "bool", .bool true])]])]
    let g : Group := ⟨.and, [.condition ⟨"", "", .bool true, none⟩], none⟩
    (bad.compactText.utf8ByteSize ≤ maxSize ∧ Json.parseText bad.compactText = .ok bad ∧
      Rejects bad [0, 0] (.bare "boolean") ∧
      load bad.compactText = .error (.value (.bare "boolean"))) ∧
    good.compactText.utf8ByteSize ≤ maxSize ∧ Json.parseText good.compactText = .ok good ∧
      (∀ path f, ¬ Rejects good path f) ∧ good.AllObjects ∧
      load good.compactText = .ok g ∧ Reads good g.toRule := by
  intro bad good g
  have hbad : Json.parseText bad.compactText = .ok bad :=
    Json.parseText_compactText (by simp [bad, Json.Writable, Json.MembersWritable,
      Json.AllWritable]) (by decide)
  have hgood : Json.parseText good.compactText = .ok good :=
    Json.parseText_compactText (by simp [good, Json.Writable, Json.MembersWritable,
      Json.AllWritable]) (by decide)
  have hbads : bad.compactText.utf8ByteSize ≤ maxSize :=
    le_trans (utf8ByteSize_ofList_le _) (by decide +kernel)
  have hgoods : good.compactText.utf8ByteSize ≤ maxSize :=
    le_trans (utf8ByteSize_ofList_le _) (by decide +kernel)
  have hfirst : checkValues bad = .error (.bare "boolean") := rfl
  have hnone : ∀ path f, ¬ Rejects good path f := checkValues_eq_ok_iff.mp rfl
  have hobj : good.AllObjects :=
    Json.allObjects_obj fun e he => List.mem_singleton.mp he ▸
      Json.allObjects_obj fun d hd => absurd hd List.not_mem_nil
  have hload : load good.compactText = .ok g := load_of_parse hgoods hgood
  refine ⟨⟨hbads, hbad, ⟨by simp, .obj [("value", .bool true)], .bool true, rfl, rfl, rfl⟩,
    ((load_tells_values hbads hbad).1 _).mpr (checkValues_eq_error_iff.mp hfirst)⟩,
    hgoods, hgood, hnone, hobj, hload, ?_⟩
  rcases (load_tells_values hgoods hgood).2.2 hnone hobj with
    ⟨f, hf, -⟩ | ⟨d, hd⟩ | ⟨g', hg', hreads⟩
  · cases hload.symm.trans hf
  · cases hload.symm.trans hd
  · obtain rfl := Except.ok.inj (hload.symm.trans hg')
    exact hreads

/-! ## texts that are not read -/

/-- what is nested too deeply is refused as JSON, whatever values it has -/
theorem load_of_nesting {v : Json} (hw : v.Writable) (hs : v.compactText.utf8ByteSize ≤ maxSize)
    (hn : Json.maxNesting < v.nesting) : load v.compactText = .error (.json .malformed) := by
  apply load_of_parse_error hs
  rw [Json.parseText, Json.parse_eq_parseWithin, Json.parseWithin_compactText hw,
    if_neg (Nat.not_le.mpr hn)]

/-- a filter with a value that has no envelope -/
def rawFilter : Json := .obj [("type", .str "filter"), ("value", .bool true)]

/-- such a filter beside a group with `n` groups in it, one in the other -/
def besideGroups (n : Nat) : Json :=
  .obj [("filters", .arr [rawFilter, (wrapped n (.empty .and)).toRule.toJson])]

theorem writable_rawFilter : rawFilter.Writable := ⟨by decide, trivial, trivial, trivial⟩

section
variable (n : Nat)

theorem writable_besideGroups : (besideGroups n).Writable := by
  have hgroup := Rule.writable_spelledAs _ _ (wrapped n (.empty .and)).toRule.spelledAs_toJson
  exact ⟨List.nodup_singleton _, ⟨writable_rawFilter, hgroup, trivial⟩, trivial⟩

theorem rejects_besideGroups : Rejects (besideGroups n) [0] (.bare "boolean") :=
  ⟨List.cons_ne_nil 0 [], rawFilter, .bool true, rfl, rfl, rfl⟩

theorem utf8ByteSize_besideGroups_le :
    (besideGroups n).compactText.utf8ByteSize ≤ 43 * n + 100 := by
  have hgroup := size_save_wrapped n (.empty .and)
  rw [save, Json.utf8ByteSize_compactText] at hgroup
  have hempty : (Group.empty .and).toJson.size = 28 := by decide +kernel
  have hfilter : rawFilter.size = 30 := by decide +kernel
  have hkey : (Json.str "filters").size = 9 := by decide +kernel
  rw [Json.utf8ByteSize_compactText, besideGroups, Json.size_obj_singleton, Json.size_arr_cons,
    Json.size_arr_singleton, size_toRule, hgroup, hempty, hfilter, hkey]
  omega

/-- 64 groups are too many for the reader -/
theorem maxNesting_lt_nesting_besideGroups (hn : 63 ≤ n) :
    Json.maxNesting < (besideGroups n).nesting := by
  have hdepth : (wrapped n (.empty .and)).depth = n + 1 := depth_wrapped n _
  have hgroup : ¬ (wrapped n (.empty .and)).toJson.nesting ≤ Json.maxNesting := by
    intro h
    have hle := ((nesting_le_maxNesting_iff _).mp h).1
    omega
  rw [← Group.nesting_toRule] at hgroup
  show _ < max (max rawFilter.nesting
    (max (wrapped n (.empty .and)).toRule.toJson.nesting 0) + 1) 0 + 1
  omega

end

/-- The grammar of JSON alone is not enough: the values of a text that the reader refuses are not
looked at.  A bad value is passed over beside 64 groups, one in the other, beside a number that is
too great, and beside half a surrogate pair. -/
theorem exists_bad_value_unread :
    let deep := besideGroups 63
    let huge := "\x7b\"filters\":[\x7b\"type\":\"filter\",\"value\":true\x7d],\"x\":1e400\x7d"
    let half := "\x7b\"filters\":[\x7b\"type\":\"filter\",\"value\":true\x7d],\"x\":\"\\ud800\"\x7d"
    load (Json.obj [("filters", .arr [rawFilter])]).compactText =
      .error (.value (.bare "boolean")) ∧
    (deep.compactText.utf8ByteSize ≤ maxSize ∧
      Json.Skip.value deep.compactText.toList = .ok [] ∧
      Json.parseWithin deep.nesting deep.compactText.toList = .ok deep ∧
      Rejects deep [0] (.bare "boolean") ∧
      load deep.compactText = .error (.json .malformed)) ∧
    (Json.Skip.value huge.toList = .ok [] ∧ ∃ f, load huge = .error (.json f)) ∧
    Json.Skip.value half.toList = .ok [] ∧ ∃ f, load half = .error (.json f) := by
  intro deep huge half
  have hplain : (Json.obj [("filters", .arr [rawFilter])]).Writable :=
    ⟨by decide, ⟨writable_rawFilter, trivial⟩, trivial⟩
  have hw : deep.Writable := writable_besideGroups 63
  have hsize : deep.compactText.utf8ByteSize ≤ maxSize :=
    (utf8ByteSize_besideGroups_le 63).trans (by decide)
  have hdeep : load deep.compactText = .error (.json .malformed) :=
    load_of_nesting hw hsize (maxNesting_lt_nesting_besideGroups 63 le_rfl)
  have hread : Json.parseWithin deep.nesting deep.compactText.toList = .ok deep :=
    (Json.parseWithin_compactText hw _).trans (if_pos le_rfl)
  have hhuge : (Json.parseText huge).toOption = none :=
    Option.isNone_iff_eq_none.mp (by decide +kernel)
  have hhalf : (Json.parseText half).toOption = none :=
    Option.isNone_iff_eq_none.mp (by decide +kernel)
  refine ⟨?_, ⟨hsize, Json.Skip.value_compactText hw, hread, rejects_besideGroups 63, hdeep⟩,
    ⟨by decide +kernel, ?_⟩, by decide +kernel, ?_⟩
  · exact (load_eq_value_iff (by decide +kernel)
      (Json.parseText_compactText hplain (by decide))).mpr rfl
  · obtain ⟨f, hf⟩ := toOption_eq_none.mp hhuge
    exact ⟨f, load_of_parse_error (by decide +kernel) hf⟩
  · obtain ⟨f, hf⟩ := toOption_eq_none.mp hhalf
    exact ⟨f, load_of_parse_error (by decide +kernel) hf⟩

end Document
end SavedFilter
