import SavedFilter.Proofs.Document.Depth
import SavedFilter.Proofs.Document.Reload
import SavedFilter.Proofs.Query.Separation
import SavedFilter.Proofs.Rule.Removal

/-!
# Saving what a removal leaves

A removal takes members out of lists, at any depth.  No path down the tree gets longer by that, no
condition is added, and the text of the tree loses at least the bytes of each rule that is taken
out.  So neither limit of the loader can be passed by what is left:

* `Rule.depth_without`        what is left is no deeper;
* `Rule.conditions_without`   its conditions are among those of the tree, in their order;
* `Rule.size_without`         its JSON is shorter by a byte at least for each rule taken out;
* `Document.save_remove`      so it can be saved and loaded wherever the tree could.
-/

namespace SavedFilter

namespace Rule

/-- a rule is an object, and takes its brackets at least -/
theorem size_toJson_pos (r : Rule) : 0 < r.toJson.size := by
  obtain ⟨ms, hr⟩ : ∃ ms, r.toJson = .obj ms := by
    cases r with
    | condition c => exact ⟨_, rfl⟩
    | group join members t => exact ⟨_, rfl⟩
  have hopen : Char.utf8Size '{' = 1 := rfl
  rw [hr, Json.size, Json.render, Text.utf8Size_cons, hopen]
  omega

section
variable (tag : String)

/-! ## depth -/

mutual

theorem depth_without : ∀ r : Rule, (without tag r).depth ≤ r.depth
  | .condition _ => le_rfl
  | .group _ members _ => Nat.add_le_add_left (depthOfAll_withoutAll members) 1

theorem depthOfAll_withoutAll : ∀ rs : List Rule, depthOfAll (withoutAll tag rs) ≤ depthOfAll rs
  | [] => le_rfl
  | r :: rs => by
    have hrs := depthOfAll_withoutAll rs
    rw [withoutAll]
    split_ifs
    · exact hrs.trans (le_max_right _ _)
    · exact max_le_max (depth_without r) hrs

end

/-! ## conditions -/

mutual

theorem conditions_without : ∀ r : Rule, (without tag r).conditions.Sublist r.conditions
  | .condition _ => .refl _
  | .group _ members _ => conditionsOfAll_withoutAll members

theorem conditionsOfAll_withoutAll : ∀ rs : List Rule,
    (conditionsOfAll (withoutAll tag rs)).Sublist (conditionsOfAll rs)
  | [] => .refl _
  | r :: rs => by
    have hrs := conditionsOfAll_withoutAll rs
    rw [withoutAll]
    split_ifs
    · exact hrs.trans (List.sublist_append_right _ _)
    · exact (conditions_without r).append hrs

end

/-- a condition that makes what is left valid was there before -/
theorem anyValid_of_withoutAll {rs : List Rule} (h : anyValid (withoutAll tag rs) = true) :
    anyValid rs = true := by
  rw [anyValid_eq_any, List.any_eq_true] at h ⊢
  obtain ⟨c, hc, husable⟩ := h
  exact ⟨c, (conditionsOfAll_withoutAll tag rs).subset hc, husable⟩

/-! ## size -/

mutual

theorem size_without : ∀ r : Rule, (without tag r).toJson.size + countBelow tag r ≤ r.toJson.size
  | .condition _ => le_rfl
  | .group join members t =>
    Json.size_obj_add_le [("type", .str "group"), ("logic", .str join.keyword)] (tagMember t)
      "filters" (size_withoutAll members)

/-- **The text of the members of a group loses a byte at least for each rule taken out.** -/
theorem size_withoutAll : ∀ rs : List Rule,
    (Json.arr (toJsonAll (withoutAll tag rs))).size + countAmong tag rs ≤
      (Json.arr (toJsonAll rs)).size
  | [] => le_rfl
  | r :: rs => by
    have hrs := size_withoutAll rs
    rw [withoutAll, countAmong]
    split_ifs
    · have hr := Json.size_arr_lt r.toJson (toJsonAll rs)
      have hpos := r.size_toJson_pos
      rw [toJsonAll_cons]
      omega
    · refine Json.size_arr_add_le (size_without r) hrs fun h => ?_
      cases rs with
      | nil => rfl
      | cons r rs => cases h

end

end

end Rule

namespace Document

theorem size_save_remove (g : Group) (tag : String) :
    (save (g.remove tag).1).utf8ByteSize + (g.remove tag).2 ≤ (save g).utf8ByteSize := by
  rw [save, save, Json.utf8ByteSize_compactText, Json.utf8ByteSize_compactText]
  exact Json.size_obj_add_le [("logic", .str g.join.keyword)] (Rule.tagMember g.tag) "filters"
    (Rule.size_withoutAll tag g.members)

/-- **What a removal leaves can be stored wherever the tree could.**  It is no deeper; its text is
shorter by as many bytes at least as rules were taken out; it is valid only if the tree was; and if
the text of the tree is loaded then so is the text of what is left, as a copy of it that is the same
unless there is a NaN. -/
theorem save_remove (g : Group) (tag : String) :
    let left := (g.remove tag).1
    left.depth ≤ g.depth ∧
    (save left).utf8ByteSize + (g.remove tag).2 ≤ (save g).utf8ByteSize ∧
    (left ≠ g → (save left).utf8ByteSize < (save g).utf8ByteSize) ∧
    (left.isValid = true → g.isValid = true) ∧
    ((∃ h, load (save g) = .ok h) →
      load (save left) = .ok left.canonical ∧ left.IsCopy left.canonical ∧
        (left.canonical.same left = true ↔ left.anyValue Scalar.isNaN = false)) := by
  intro left
  have hdepth : left.depth ≤ g.depth :=
    Nat.add_le_add_left (Rule.depthOfAll_withoutAll tag g.members) 1
  have hsize : (save left).utf8ByteSize + (g.remove tag).2 ≤ (save g).utf8ByteSize :=
    size_save_remove g tag
  refine ⟨hdepth, hsize, ?_, Rule.anyValid_of_withoutAll tag, ?_⟩
  · intro hne
    have hcount : (g.remove tag).2 ≠ 0 := by
      intro hzero
      have hnone := (Rule.countAmong_eq_zero_iff tag g.members).mp hzero
      exact hne (congrArg (Group.mk g.join · g.tag) (Rule.withoutAll_eq_self_iff.mpr hnone))
    omega
  · rintro ⟨h, hload⟩
    have hs := (limits_of_load hload).1
    have hd : g.depth ≤ maxDepth := by
      rw [load_save_eq g hs] at hload
      split_ifs at hload with hn hdeep
      exact Nat.not_lt.mp hdeep
    have hd' := hdepth.trans hd
    have hs' : (save left).utf8ByteSize ≤ maxSize := by omega
    refine ⟨load_of_parseText hd' hs' (parseText_save hd'), left.isCopy_canonical, ?_⟩
    rw [left.same_canonical, Bool.not_eq_true']

/-- two rules with the tag, one of them in a group that stays -/
def pinned : Group :=
  ⟨.and, [.condition ⟨"a", "", .bool true, some "pin"⟩,
    .group .or [.condition ⟨"b", "", .double .nan, none⟩,
      .group .and [.condition ⟨"c", "", .null, some "pin"⟩] (some "pin")] none], none⟩

/-- the group that is left holds a NaN, and is loaded as a copy that is not the same -/
theorem save_remove_pinned :
    (∃ h, load (save pinned) = .ok h) ∧ (pinned.remove "pin").1 ≠ pinned ∧
    (pinned.remove "pin").1.isValid = true ∧
    let left : Group := ⟨.and, [.group .or [.condition ⟨"b", "", .double .nan, none⟩] none], none⟩
    load (save left) = .ok left.canonical ∧ left.canonical.same left = false ∧
      (save left).utf8ByteSize < (save pinned).utf8ByteSize ∧ pinned.isValid = true := by
  have hd : pinned.depth ≤ maxDepth := by decide
  have hs : (save pinned).utf8ByteSize ≤ maxSize :=
    le_trans (utf8ByteSize_ofList_le _) (by decide +kernel)
  have hload : ∃ h, load (save pinned) = .ok h := ⟨_, load_of_parseText hd hs (parseText_save hd)⟩
  have hdepth : (pinned.remove "pin").1.depth ≠ pinned.depth := by decide
  have hne : (pinned.remove "pin").1 ≠ pinned := fun h => hdepth (congrArg Group.depth h)
  have hvalid : (pinned.remove "pin").1.isValid = true := by decide
  obtain ⟨-, -, hshorter, hkept, hagain⟩ := save_remove pinned "pin"
  obtain ⟨hleft, -, hsame⟩ := hagain hload
  refine ⟨hload, hne, hvalid, hleft, ?_, hshorter hne, hkept hvalid⟩
  exact Bool.eq_false_iff.mpr fun h => absurd (hsame.mp h) (by decide)

end Document
end SavedFilter
