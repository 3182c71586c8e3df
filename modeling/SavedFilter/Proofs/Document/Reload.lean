import SavedFilter.Proofs.Document.ValueFaults
import SavedFilter.Proofs.Json.Size

/-!
# Loading what was saved of a loaded document

The saver writes members that a document may leave out, so the text of a tree can be larger than the
one it was loaded from, and the limit of the size holds for loading only.  Nothing else stands in
the way: what is loaded is not too deep, and the text of what is read back is no longer than the
text it is read from.

* `limits_of_load`       what is loaded keeps to both limits;
* `save_canonical_le`    the text of a copy that is read back is no longer;
* `load_bareDocument`    conditions that leave out their members are loaded as blank ones;
* `load_save_of_load`    what was loaded and saved is loaded again, or is too large.
-/

namespace SavedFilter

/-! ## what is read back once more -/

theorem Decimal.canonical_canonical (d : Decimal) : d.canonical.canonical = d.canonical := by
  rw [canonical_eq_self_iff]
  show ((d.negative && d.coefficient != 0) && d.coefficient == 0) = false
  by_cases h : d.coefficient = 0 <;> simp [h]

theorem Binary64.canonical_canonical (x : Binary64) : x.canonical.canonical = x.canonical := by
  cases h : x.isNaN with
  | true =>
    have hx : x.canonical = nan := if_pos h
    rw [hx]
    exact if_pos isNaN_nan
  | false =>
    have hx : x.canonical = x := if_neg (Bool.eq_false_iff.mp h)
    rw [hx, hx]

theorem Scalar.canonical_canonical (v : Scalar) : v.canonical.canonical = v.canonical := by
  cases v with
  | double x => exact congrArg Scalar.double x.canonical_canonical
  | decimal d => exact congrArg Scalar.decimal d.canonical_canonical
  | _ => rfl

namespace Rule

mutual

theorem mapValues_mapValues {f : Scalar → Scalar} (h : ∀ v, f (f v) = f v) :
    ∀ r : Rule, (r.mapValues f).mapValues f = r.mapValues f
  | .condition c => congrArg (fun v => Rule.condition { c with value := v }) (h c.value)
  | .group join members tag =>
    congrArg (fun rs => Rule.group join rs tag) (mapAll_mapAll h members)

theorem mapAll_mapAll {f : Scalar → Scalar} (h : ∀ v, f (f v) = f v) :
    ∀ rs : List Rule, mapAll f (mapAll f rs) = mapAll f rs
  | [] => rfl
  | r :: rs => congrArg₂ List.cons (mapValues_mapValues h r) (mapAll_mapAll h rs)

end

end Rule

theorem Group.canonical_canonical (g : Group) : g.canonical.canonical = g.canonical :=
  congrArg (fun rs => Group.mk g.join rs g.tag)
    (Rule.mapAll_mapAll Scalar.canonical_canonical g.members)

/-! ## the size of copies -/

/-- a zero loses its sign, and nothing else changes -/
theorem Scalar.size_canonical (v : Scalar) : v.canonical.envelope.size ≤ v.envelope.size := by
  cases hz : v.isNegativeZero with
  | false => rw [v.envelope_canonical_eq_iff.mpr hz]
  | true =>
    cases v with
    | decimal d =>
      have hd : (d.negative && d.coefficient == 0) = true := hz
      rw [Bool.and_eq_true, beq_iff_eq] at hd
      have hunsigned : d.canonical.negative = false := by
        show (d.negative && d.coefficient != 0) = false
        rw [hd.2]
        exact Bool.and_false _
      have htext : d.text = '-' :: d.canonical.text := by
        rw [Decimal.text, Decimal.text, hunsigned, if_pos hd.1]
        rfl
      show (Json.arr [.str _, .str (String.ofList d.canonical.text)]).size ≤
        (Json.arr [.str _, .str (String.ofList d.text)]).size
      rw [htext]
      exact Json.size_arr_le (.cons (Nat.le_refl _) (.cons (Json.size_str_le _ _) .nil))
    | _ => cases hz

theorem Condition.size_canonical (c : Condition) :
    (Rule.condition c.canonical).toJson.size ≤ (Rule.condition c).toJson.size := by
  have hnull : c.canonical.value.isNull = c.value.isNull := c.value.isNull_canonical
  apply Json.size_obj_le
  rw [Condition.members, Condition.members, hnull]
  refine .cons (.refl _) (.cons (.refl _) (.cons (.refl _) ?_))
  cases c.value.isNull with
  | true => exact List.forall₂_refl _
  | false => exact .cons ⟨rfl, c.value.size_canonical⟩ (List.forall₂_refl _)

namespace Rule

mutual

theorem size_canonical : ∀ r : Rule, r.canonical.toJson.size ≤ r.toJson.size
  | .condition c => c.size_canonical
  | .group _ members _ =>
    Json.size_obj_le (.cons (.refl _) (.cons (.refl _)
      (.cons ⟨rfl, Json.size_arr_le (sizes_canonical members)⟩ (List.forall₂_refl _))))

theorem sizes_canonical : ∀ rs : List Rule,
    List.Forall₂ (fun v w => v.size ≤ w.size) (toJsonAll (canonicalAll rs)) (toJsonAll rs)
  | [] => .nil
  | r :: rs => .cons (size_canonical r) (sizes_canonical rs)

end

end Rule

namespace Document

theorem save_canonical_le (g : Group) :
    (save g.canonical).utf8ByteSize ≤ (save g).utf8ByteSize := by
  rw [save, save, Json.utf8ByteSize_compactText, Json.utf8ByteSize_compactText]
  exact Json.size_obj_le (.cons (.refl _)
    (.cons ⟨rfl, Json.size_arr_le (Rule.sizes_canonical g.members)⟩ (List.forall₂_refl _)))

/-! ## loading again -/

section
variable {s : String} {g : Group}

/-- a document that is loaded keeps to both limits -/
theorem limits_of_load (h : load s = .ok g) : s.utf8ByteSize ≤ maxSize ∧ g.depth ≤ maxDepth := by
  rw [load] at h
  split_ifs at h with hlarge
  obtain ⟨v, -, h⟩ := bind_eq_ok.mp h
  obtain ⟨u, -, h⟩ := bind_eq_ok.mp h
  obtain ⟨g', -, h⟩ := bind_eq_ok.mp h
  split_ifs at h with hdeep
  rw [← Except.ok.inj h]
  exact ⟨Nat.not_lt.mp hlarge, Nat.not_lt.mp hdeep⟩

theorem load_tooLarge (hs : maxSize < s.utf8ByteSize) :
    load s = .error (.tooLarge s.utf8ByteSize) := if_pos hs

theorem loadOrDefault_of_ok (h : load s = .ok g) : loadOrDefault s = (g, none) := by
  rw [loadOrDefault, h]

theorem loadOrDefault_of_error {f : LoadFault} (h : load s = .error f) :
    loadOrDefault s = (.empty .and, some restoreWarning) := by
  rw [loadOrDefault, h]

/-- what has been loaded from its own text is loaded from it every time -/
theorem load_save_canonical (hd : g.depth ≤ maxDepth) (hs : (save g).utf8ByteSize ≤ maxSize) :
    load (save g.canonical) = .ok g.canonical := by
  have hd' : g.canonical.depth ≤ maxDepth := g.depth_canonical.trans_le hd
  have hload := load_of_parseText hd' ((save_canonical_le g).trans hs) (parseText_save hd')
  rwa [g.canonical_canonical] at hload

/-- a saved text that is loaded does not grow -/
theorem save_le_of_load_save {g₀ : Group} (hd : g₀.depth ≤ maxDepth)
    (h : load (save g₀) = .ok g) : (save g).utf8ByteSize ≤ maxSize := by
  have hs := (limits_of_load h).1
  have hload := load_of_parseText hd hs (parseText_save hd)
  rw [Except.ok.inj (h.symm.trans hload)]
  exact (save_canonical_le g₀).trans hs

end

/-! ## documents that grow -/

/-- a condition that leaves out all it can -/
def bareCondition : Json := .obj [("type", .str "filter")]

def bareDocument (n : Nat) : Json := .obj [("filters", .arr (List.replicate n bareCondition))]

def blanks (n : Nat) : Group := ⟨.and, List.replicate n (.condition .blank), none⟩

theorem writable_bareDocument (n : Nat) : (bareDocument n).Writable := by
  have hitems : Json.AllWritable (List.replicate n bareCondition) := by
    rw [Json.allWritable_iff]
    intro v hv
    rw [List.eq_of_mem_replicate hv]
    exact ⟨List.pairwise_singleton _ _, trivial, trivial⟩
  exact ⟨List.pairwise_singleton _ _, hitems, trivial⟩

theorem nesting_bareDocument (n : Nat) : (bareDocument n).nesting ≤ Json.maxNesting := by
  have hitems : Json.nestingOfAll (List.replicate n bareCondition) ≤ 1 := by
    induction n with
    | zero => exact Nat.zero_le _
    | succ n ih => exact max_le (Nat.le_refl 1) ih
  show max (Json.nestingOfAll (List.replicate n bareCondition) + 1) 0 + 1 ≤ Json.maxNesting
  unfold Json.maxNesting
  omega

theorem checkItems_bare (n : Nat) : checkItems (List.replicate n bareCondition) = .ok () := by
  induction n with
  | zero => rfl
  | succ n ih => exact ih

theorem rules_bare (inner : Bool) (n : Nat) :
    Shape.rules inner (List.replicate n bareCondition) =
      .ok (List.replicate n (.condition .blank)) := by
  induction n with
  | zero => rfl
  | succ n ih =>
    rw [List.replicate_succ, Shape.rules, ih]
    rfl

theorem depth_blanks (n : Nat) : (blanks n).depth = 1 := by
  have hmembers : Rule.depthOfAll (List.replicate n (.condition .blank)) = 0 := by
    induction n with
    | zero => rfl
    | succ n ih => exact (Nat.zero_max _).trans ih
  exact congrArg (1 + ·) hmembers

theorem ofJson_bareDocument (n : Nat) : ofJson (bareDocument n) = .ok (blanks n) := by
  have hflat : ¬ maxDepth < (blanks n).depth := by
    rw [depth_blanks]
    decide
  have hgroup : Group.ofJson (bareDocument n) = .ok (blanks n) := by
    show ((Shape.rules false (List.replicate n bareCondition)).map _ >>= _) = _
    rw [rules_bare]
    rfl
  rw [ofJson, checkValues_eq]
  show ((checkItems (List.replicate n bareCondition)).mapError LoadFault.value >>= _) = _
  rw [checkItems_bare]
  show ((Group.ofJson (bareDocument n)).mapError LoadFault.shape >>= _) = _
  rw [hgroup]
  exact if_neg hflat

theorem load_bareDocument {n : Nat} (hs : (bareDocument n).size ≤ maxSize) :
    load (bareDocument n).compactText = .ok (blanks n) := by
  rw [← Json.utf8ByteSize_compactText] at hs
  rw [load_of_parse hs
    (Json.parseText_compactText (writable_bareDocument n) (nesting_bareDocument n))]
  exact ofJson_bareDocument n

theorem toJsonAll_replicate (n : Nat) (r : Rule) :
    Rule.toJsonAll (List.replicate n r) = List.replicate n r.toJson := by
  induction n with
  | zero => rfl
  | succ n ih => rw [List.replicate_succ, Rule.toJsonAll_cons, ih, List.replicate_succ]

section
open Json Text
variable {n : Nat} (hn : 0 < n)
include hn

/-- an object whose last member has equal items -/
theorem size_of_render {v item : Json} {front : List Char}
    (h : render v = front ++ (render (.arr (List.replicate n item)) ++ ['}'])) :
    v.size = utf8Size front + n * (item.size + 1) + 2 := by
  have hitems := size_replicate hn item
  have hback : utf8Size ['}'] = 1 := rfl
  rw [size] at hitems
  rw [size, h, utf8Size_append, utf8Size_append, hitems, hback]
  rfl

theorem size_bareDocument : (bareDocument n).size = 18 * n + 13 := by
  have hitem : bareCondition.size = 17 := by decide
  have hfront : utf8Size ('{' :: (quoted "filters" ++ [':'])) = 11 := by decide
  have htext : render (bareDocument n) = '{' :: (quoted "filters" ++ [':']) ++
      (render (.arr (List.replicate n bareCondition)) ++ ['}']) := by
    simp [bareDocument, render, renderMembers, renderMoreMembers]
  rw [size_of_render hn htext, hitem, hfront]
  omega

theorem size_save_blanks : (save (blanks n)).utf8ByteSize = 43 * n + 27 := by
  have hitem : (Rule.condition .blank).toJson.size = 42 := by decide
  have hfront : utf8Size ('{' :: (quoted "logic" ++ ':' :: (quoted "and" ++
      ',' :: (quoted "filters" ++ [':'])))) = 25 := by decide
  have htext : render (blanks n).toJson = '{' :: (quoted "logic" ++ ':' :: (quoted "and" ++
      ',' :: (quoted "filters" ++ [':']))) ++
      (render (.arr (List.replicate n (Rule.condition .blank).toJson)) ++ ['}']) := by
    have hand : scalarText (.str "and") = quoted "and" := rfl
    rw [← toJsonAll_replicate]
    simp [blanks, Group.toJson, Join.keyword, Rule.tagMember, render, renderMembers,
      renderMoreMembers, hand]
  rw [save, utf8ByteSize_compactText, size_of_render hn htext, hitem, hfront]
  omega

end

/-! ## what was loaded -/

/-- **What was loaded can be saved and loaded again**, if the saved text is not too large: as a copy
that is the same unless there is a NaN, and that is itself loaded from its text ever after.  A text
that is too large is refused for that; but not when the document was a saved text before. -/
theorem load_save_of_load {s : String} {g : Group} (h : load s = .ok g) :
    ((save g).utf8ByteSize ≤ maxSize →
      load (save g) = .ok g.canonical ∧ g.IsCopy g.canonical ∧
        (g.canonical.same g = true ↔ g.anyValue Scalar.isNaN = false) ∧
        loadOrDefault (save g) = (g.canonical, none) ∧
        load (save g.canonical) = .ok g.canonical) ∧
    (maxSize < (save g).utf8ByteSize →
      load (save g) = .error (.tooLarge (save g).utf8ByteSize) ∧
        loadOrDefault (save g) = (.empty .and, some restoreWarning)) ∧
    (∀ g₀ : Group, g₀.depth ≤ maxDepth → s = save g₀ → (save g).utf8ByteSize ≤ maxSize) := by
  have hd := (limits_of_load h).2
  refine ⟨?_, ?_, ?_⟩
  · intro hs
    have hload := load_of_parseText hd hs (parseText_save hd)
    refine ⟨hload, g.isCopy_canonical, ?_, loadOrDefault_of_ok hload, load_save_canonical hd hs⟩
    rw [g.same_canonical, Bool.not_eq_true']
  · intro hs
    exact ⟨load_tooLarge hs, loadOrDefault_of_error (load_tooLarge hs)⟩
  · rintro g₀ hd₀ rfl
    exact save_le_of_load_save hd₀ h

/-- seven blank conditions are loaded again, and the saved text of 1600 is too large -/
theorem load_save_of_load_blanks :
    let g := blanks 7
    let h := blanks 1600
    load (bareDocument 7).compactText = .ok g ∧ (save g).utf8ByteSize ≤ maxSize ∧
      load (save g) = .ok g.canonical ∧ g.canonical.same g = true ∧
      loadOrDefault (save g) = (g.canonical, none) ∧
      load (bareDocument 1600).compactText = .ok h ∧ maxSize < (save h).utf8ByteSize ∧
      loadOrDefault (save h) = (.empty .and, some restoreWarning) := by
  intro g h
  have hg : load (bareDocument 7).compactText = .ok g :=
    load_bareDocument (by rw [size_bareDocument (by decide)]; decide)
  have hh : load (bareDocument 1600).compactText = .ok h :=
    load_bareDocument (by rw [size_bareDocument (by decide)]; decide)
  have hgs : (save g).utf8ByteSize ≤ maxSize := by
    rw [size_save_blanks (by decide)]
    decide
  have hhs : maxSize < (save h).utf8ByteSize := by
    rw [size_save_blanks (by decide)]
    decide
  obtain ⟨hload, -, hsame, hdefault, -⟩ := (load_save_of_load hg).1 hgs
  exact ⟨hg, hgs, hload, hsame.mpr (by decide), hdefault, hh, hhs,
    ((load_save_of_load hh).2.1 hhs).2⟩

/-- A document of 28 thousand bytes is loaded, and its tree is saved as one that is too large. -/
theorem exists_load_save_tooLarge :
    let s := (bareDocument 1600).compactText
    let g := blanks 1600
    load s = .ok g ∧ s.utf8ByteSize = 28813 ∧ load (save g) = .error (.tooLarge 68827) ∧
      loadOrDefault (save g) = (.empty .and, some restoreWarning) ∧
      ¬ ∃ h, load (save g) = .ok h ∧ g.IsCopy h := by
  intro s g
  have hn : 0 < 1600 := by decide
  have hsize : (bareDocument 1600).size = 28813 := size_bareDocument hn
  have hsaved : (save g).utf8ByteSize = 68827 := size_save_blanks hn
  have hfault : load (save g) = .error (.tooLarge 68827) := by
    rw [← hsaved]
    exact load_tooLarge (hsaved ▸ by decide)
  refine ⟨load_bareDocument (hsize ▸ by decide), (Json.utf8ByteSize_compactText _).trans hsize,
    hfault, loadOrDefault_of_error hfault, ?_⟩
  rintro ⟨h, hload, -⟩
  cases hfault.symm.trans hload

end Document
end SavedFilter
