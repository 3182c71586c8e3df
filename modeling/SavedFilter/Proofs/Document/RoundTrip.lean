import SavedFilter.Proofs.Document.Spellings

/-!
# Documents that are loaded again

The JSON of a group is one of its spellings, so up to `maxDepth` it is read back from either text,
and it is loaded as the canonical form of the group.

* `load_of_parseText`   a text that spells the JSON of a group is loaded as its canonical form;
* `save_canonical_eq_iff`   which is saved as the same text, unless a zero has lost its sign;
* `load_save`           so both texts of a group are loaded as a copy of it.
-/

namespace SavedFilter

theorem Condition.nesting_toJson (c : Condition) : (Rule.condition c).toJson.nesting ≤ 2 :=
  Rule.nesting_spelledAs (.condition c) _ c.spelledAs_toJson

namespace Group

theorem writable_toJson (g : Group) : g.toJson.Writable := g.spelledAs_toJson.writable

theorem nesting_toJson (g : Group) : g.toJson.nesting ≤ 2 * g.depth + 2 :=
  g.spelledAs_toJson.nesting_le

end Group

namespace Document

/-- of the tests of a loader only that of the depth can refuse the JSON of a group -/
theorem ofJson_toJson_eq (g : Group) :
    ofJson g.toJson =
      if maxDepth < g.depth then .error (.tooDeep g.depth) else .ok g.canonical :=
  ofJson_spelledAs g.spelledAs_toJson

section
variable {g : Group} (hd : g.depth ≤ maxDepth)
include hd

theorem load_of_parseText {s : String} (hs : s.utf8ByteSize ≤ maxSize)
    (h : Json.parseText s = .ok g.toJson) : load s = .ok g.canonical :=
  load_of_spelledAs g.spelledAs_toJson hd hs h

theorem nesting_toJson_le : g.toJson.nesting ≤ Json.maxNesting :=
  nesting_le_maxNesting g.spelledAs_toJson hd

theorem parseText_save : Json.parseText (save g) = .ok g.toJson :=
  Json.parseText_compactText g.writable_toJson (nesting_toJson_le hd)

theorem parseText_savePretty : Json.parseText (savePretty g) = .ok g.toJson :=
  Json.parseText_prettyText g.writable_toJson (nesting_toJson_le hd)

/-- what is loaded is saved as the same text, unless a zero has lost its sign -/
theorem save_canonical_eq_iff :
    save g.canonical = save g ↔ g.anyValue Scalar.isNegativeZero = false := by
  rw [← g.toJson_canonical_eq_iff]
  constructor
  · intro h
    have hcanonical := parseText_save (g.depth_canonical.trans_le hd)
    rw [h, parseText_save hd] at hcanonical
    exact (Except.ok.inj hcanonical).symm
  · intro h
    exact congrArg Json.compactText h

end

/-- **A group of allowed depth is loaded again from its text**, if that is not too large: with the
same shape, order, joins, tags, fields and operators, and with copies of its values.  The copy is
the same as the group unless there is a NaN, and is saved as the same text unless there is a
negative zero.  The indented text is loaded as the same copy. -/
theorem load_save (g : Group) (hd : g.depth ≤ maxDepth) :
    ((save g).utf8ByteSize ≤ maxSize →
      load (save g) = .ok g.canonical ∧ g.IsCopy g.canonical ∧
        (save g.canonical = save g ↔ g.anyValue Scalar.isNegativeZero = false) ∧
        (g.canonical.same g = true ↔ g.anyValue Scalar.isNaN = false)) ∧
    ((savePretty g).utf8ByteSize ≤ maxSize → load (savePretty g) = .ok g.canonical) := by
  refine ⟨fun hs => ⟨load_of_parseText hd hs (parseText_save hd), g.isCopy_canonical,
    save_canonical_eq_iff hd, ?_⟩, fun hs => load_of_parseText hd hs (parseText_savePretty hd)⟩
  rw [g.same_canonical, Bool.not_eq_true']

/-- a character takes at most four bytes -/
theorem utf8ByteSize_ofList_le (cs : List Char) :
    (String.ofList cs).utf8ByteSize ≤ 4 * cs.length := by
  induction cs with
  | nil => exact Nat.zero_le _
  | cons c cs ih =>
    have hc := c.utf8Size_le_four
    rw [String.ofList_cons, String.utf8ByteSize_append, String.utf8ByteSize_singleton,
      List.length_cons]
    omega

/-- a group within a group, with a date, a null and a tag -/
theorem load_save_nested :
    let g : Group := ⟨.or, [.condition ⟨"due", " Equal ", .date ⟨-1, 2, 28, by decide⟩, some ""⟩,
      .group .and [.condition ⟨"name", "is-null", .null, none⟩] none], none⟩
    g.depth ≤ maxDepth ∧ (save g).utf8ByteSize ≤ maxSize ∧ (savePretty g).utf8ByteSize ≤ maxSize ∧
      load (save g) = .ok g.canonical ∧ load (savePretty g) = .ok g.canonical ∧
      save g.canonical = save g ∧ g.canonical.same g = true := by
  intro g
  have hd : g.depth ≤ maxDepth := by decide
  have hs : (save g).utf8ByteSize ≤ maxSize :=
    le_trans (utf8ByteSize_ofList_le _) (by decide +kernel)
  have hp : (savePretty g).utf8ByteSize ≤ maxSize :=
    le_trans (utf8ByteSize_ofList_le _) (by decide +kernel)
  obtain ⟨hload, -, hsave, hsame⟩ := (load_save g hd).1 hs
  exact ⟨hd, hs, hp, hload, (load_save g hd).2 hp, hsave.mpr (by decide), hsame.mpr (by decide)⟩

/-- a negative zero is saved with its sign and loaded without it -/
theorem save_canonical_ne :
    let g : Group := ⟨.and, [.condition ⟨"a", "equal", .decimal ⟨true, 0, 28, by decide, by decide⟩,
      none⟩], none⟩
    g.depth ≤ maxDepth ∧ (save g).utf8ByteSize ≤ maxSize ∧ load (save g) = .ok g.canonical ∧
      save g.canonical ≠ save g := by
  intro g
  have hd : g.depth ≤ maxDepth := by decide
  have hs : (save g).utf8ByteSize ≤ maxSize :=
    le_trans (utf8ByteSize_ofList_le _) (by decide +kernel)
  refine ⟨hd, hs, load_of_parseText hd hs (parseText_save hd), ?_⟩
  intro h
  exact absurd ((save_canonical_eq_iff hd).mp h) (by decide)

end Document
end SavedFilter
