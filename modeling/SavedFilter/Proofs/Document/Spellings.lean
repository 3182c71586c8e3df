import SavedFilter.Proofs.Document.FirstFault
import SavedFilter.Proofs.Rule.Spellings

/-!
# Documents in mixed forms

A group is loaded from every value that is written for it, with an object here and an array there.

* `checkItems_allSpelledAs`   the look at the values finds nothing wrong: it opens objects only, and
                              what stands in an array it does not see;
* `ofJson_spelledAs`          so of the tests of a loader only that of the depth is left;
* `load_spelledAs`            every text of such a value is loaded as the group.
-/

namespace SavedFilter.Document
open Json

/-! ## the look at the values -/

section
variable {c : Condition} {v : Json} (h : (Rule.condition c).SpelledAs v)
include h

theorem checkValue_condition_spelled : checkValue v = .ok () := by
  obtain ⟨ms, rfl, -, -, -, hfields⟩ | ⟨items, rfl, -⟩ := IsRecord.read (c.nodup_fields "filter") h
  · have hvalue : Gives fieldDefaults ms ("value", c.value.envelope) :=
      hfields _ (.tail _ (.tail _ (.head _)))
    rw [checkValue, Json.get?]
    rcases hvalue with hget | ⟨hget, -⟩
    · rw [show ms.lookup "value" = some c.value.envelope from hget]
      show (Scalar.ofEnvelope c.value.envelope).map _ = _
      rw [c.value.ofEnvelope_envelope]
      rfl
    · rw [show ms.lookup "value" = none from hget]
  · rfl

/-- a condition holds no rules -/
theorem filters_condition_spelled : v.filters = [] := by
  obtain ⟨ms, rfl, -, hnone, -⟩ | ⟨items, rfl, -⟩ := IsRecord.read (c.nodup_fields "filter") h
  · have hkey : "filters" ∉ ["type", "field", "operator", "value", "id"] := by decide
    rw [filters_eq, hnone "filters" hkey]
    rfl
  · rfl

end

section
variable {join : Join} {items : List Json} {tag : Option String} {v : Json}

/-- an object holds the members of its group, and an array is not opened -/
theorem filters_group_spelled {front : List (String × Json)}
    (hk : ((front ++ groupFields join items tag).map Prod.fst).Nodup)
    (h : IsRecord fieldDefaults front (groupFields join items tag) v) :
    v.filters = items ∨ v.filters = [] := by
  obtain ⟨ms, rfl, -, -, -, hfields⟩ | ⟨items', rfl, -⟩ := h.read hk
  · have hfilters : Gives fieldDefaults ms ("filters", .arr items) := hfields _ (.tail _ (.head _))
    rw [filters_eq]
    rcases hfilters with hget | ⟨hget, -⟩
    · rw [show ms.lookup "filters" = some (.arr items) from hget]
      exact .inl rfl
    · rw [show ms.lookup "filters" = none from hget]
      exact .inr rfl
  · exact .inr rfl

/-- a group has no value -/
theorem checkValue_group_spelled
    (h : IsRecord fieldDefaults [("type", .str "group")] (groupFields join items tag) v) :
    checkValue v = .ok () := by
  obtain ⟨ms, rfl, -, hnone, -⟩ | ⟨items', rfl, -⟩ :=
    h.read (nodup_groupFields join items tag "group")
  · have hkey : "value" ∉ ["type", "logic", "filters", "id"] := by decide
    rw [checkValue, Json.get?, hnone "value" hkey]
  · rfl

theorem checkValues_of_filters (hitems : checkItems items = .ok ())
    (h : v.filters = items ∨ v.filters = []) : checkValues v = .ok () := by
  rw [checkValues_eq]
  rcases h with h | h
  · rw [h, hitems]
  · rw [h]
    rfl

end

mutual

theorem checkRule_spelledAs : ∀ (r : Rule) (v : Json), r.SpelledAs v →
    checkValue v = .ok () ∧ checkValues v = .ok ()
  | .condition _, _, h =>
    ⟨checkValue_condition_spelled h,
      (checkValues_eq _).trans (congrArg checkItems (filters_condition_spelled h))⟩
  | .group join members tag, _, ⟨items, hitems, h⟩ =>
    ⟨checkValue_group_spelled h,
      checkValues_of_filters (checkItems_allSpelledAs members items hitems)
        (filters_group_spelled (nodup_groupFields join items tag "group") h)⟩

theorem checkItems_allSpelledAs : ∀ (rs : List Rule) (vs : List Json),
    Rule.AllSpelledAs rs vs → checkItems vs = .ok ()
  | [], [], _ => rfl
  | r :: rs, v :: vs, ⟨hr, hrs⟩ => by
    obtain ⟨hvalue, hvalues⟩ := checkRule_spelledAs r v hr
    rw [checkItems, hvalue]
    show (checkValues v >>= fun _ => checkItems vs) = _
    rw [hvalues]
    exact checkItems_allSpelledAs rs vs hrs

end

theorem checkValues_spelledAs {g : Group} {v : Json} (h : g.SpelledAs v) :
    checkValues v = .ok () := by
  obtain ⟨items, hitems, h⟩ := h
  exact checkValues_of_filters (checkItems_allSpelledAs g.members items hitems)
    (filters_group_spelled (nodup_groupFields g.join items g.tag "group").of_cons h)

/-! ## loading -/

section
variable {g : Group} {v : Json} (h : g.SpelledAs v)
include h

/-- of the tests of a loader only that of the depth can refuse a spelling of a group -/
theorem ofJson_spelledAs :
    ofJson v = if maxDepth < g.depth then .error (.tooDeep g.depth) else .ok g.canonical := by
  rw [ofJson, checkValues_spelledAs h]
  show ((Group.ofJson v).mapError LoadFault.shape >>= _) = _
  rw [Group.ofJson_spelledAs h, ← g.depth_canonical]
  rfl

theorem load_of_spelledAs (hd : g.depth ≤ maxDepth) {s : String} (hs : s.utf8ByteSize ≤ maxSize)
    (hparse : parseText s = .ok v) : load s = .ok g.canonical := by
  rw [load_of_parse hs hparse, ofJson_spelledAs h, if_neg (Nat.not_lt.mpr hd)]

theorem nesting_le_maxNesting (hd : g.depth ≤ maxDepth) : v.nesting ≤ maxNesting := by
  have hn := h.nesting_le
  unfold maxDepth at hd
  unfold maxNesting
  omega

end

/-- **A group of allowed depth is loaded from every spelling of it.**  Each of its rules, and the
group itself, is an object with its keys in any order or an array, and leaves out any fields that
have their default, of an array the last ones.  Whatever the white space, the text of such a value
is read as that value, and if it is not too large it is loaded as a copy of the group, which is the
same as the group unless there is a NaN. -/
theorem load_spelledAs (g : Group) (v : Json) (hd : g.depth ≤ maxDepth) (h : g.SpelledAs v) :
    (∀ gaps : Gaps, parseText (String.ofList (gaps.text 0 v)) = .ok v) ∧
      (∀ s : String, parseText s = .ok v → s.utf8ByteSize ≤ maxSize → load s = .ok g.canonical) ∧
      g.IsCopy g.canonical ∧ (g.canonical.same g = true ↔ g.anyValue Scalar.isNaN = false) := by
  refine ⟨fun gaps => ?_, fun s hparse hs => load_of_spelledAs h hd hs hparse,
    g.isCopy_canonical, ?_⟩
  · rw [parseText, String.toList_ofList]
    exact parse_text gaps 0 h.writable (nesting_le_maxNesting h hd)
  · rw [g.same_canonical, Bool.not_eq_true']

/-- an array in which one group is an object with its kind behind its filters, and the other one is
an array with nothing but its kind -/
theorem load_spelledAs_mixed :
    let g : Group := ⟨.or, [.group .and [.condition ⟨"a", "", .int32 5, none⟩] (some "x"),
      .group .and [] none], none⟩
    let v : Json := .arr [.str "or", .arr [
      .obj [("filters", .arr [
          .arr [.str "filter", .str "a", .str "", .arr [.str "int32", .int 5]]]),
        ("type", .str "group"), ("id", .str "x")],
      .arr [.str "group"]]]
    g.depth ≤ maxDepth ∧ g.SpelledAs v ∧ parseText v.compactText = .ok v ∧
      load v.compactText = .ok g.canonical ∧ g.canonical.same g = true := by
  intro g v
  have hd : g.depth ≤ maxDepth := by decide
  let c : Condition := ⟨"a", "", .int32 5, none⟩
  have hcondition : (Rule.condition c).SpelledAs
      (.arr [.str "filter", .str "a", .str "", .arr [.str "int32", .int 5]]) :=
    @IsRecord.array _ _ _ (c.fields.take 3) [("id", .null)] rfl (by simp [fieldDefaults])
  have hgroup : (Rule.group .and [.condition c] (some "x")).SpelledAs (.obj [
      ("filters", .arr [.arr [.str "filter", .str "a", .str "", .arr [.str "int32", .int 5]]]),
      ("type", .str "group"), ("id", .str "x")]) :=
    ⟨[_], ⟨hcondition, trivial⟩, .object (.cons _ (.refl _))
      (by simp [groupFields, fieldDefaults, Join.keyword, tagValue]) (.swap _ _ _)⟩
  have hbare : (Rule.group .and [] none).SpelledAs (.arr [.str "group"]) :=
    ⟨[], trivial, @IsRecord.array _ _ _ [] (groupFields .and [] none) rfl
      (by simp [groupFields, fieldDefaults, Join.keyword, tagValue])⟩
  have hroot : g.SpelledAs v :=
    ⟨[_, _], ⟨hgroup, hbare, trivial⟩, @IsRecord.array fieldDefaults _ _
      [("logic", .str "or"), ("filters", .arr [_, _])] [("id", .null)] rfl
      (by simp [fieldDefaults])⟩
  obtain ⟨hparse, hload, -, hsame⟩ := load_spelledAs g v hd hroot
  have htext : parseText v.compactText = .ok v := by
    rw [compactText, ← Gaps.text_tight 0]
    exact hparse Gaps.tight
  have hs : v.compactText.utf8ByteSize ≤ maxSize := by decide +kernel
  exact ⟨hd, hroot, htext, hload _ htext hs, hsame.mpr (by decide)⟩

end SavedFilter.Document
