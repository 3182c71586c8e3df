import SavedFilter.Proofs.Query.Separation
import SavedFilter.Proofs.Rule.Copies
import SavedFilter.Proofs.Scalar.Equality
import SavedFilter.Rule.Edit

/-!
# When two trees are the same

Trees are the same when their rules are, place by place.  `Same` tells this by the rules of its
derivation, so what holds of trees that are the same is shown by induction on these.

* `Rule.partialEquality`    trees have an equality, but for those that hold a NaN;
* `Rule.Same.text_query`    trees that are the same have one text, and bind the same values;
* `Group.same_respected`    nothing that is done with trees tells those apart that are the same.
-/

set_option linter.unusedSectionVars false

namespace SavedFilter

/-! ## conditions -/

theorem Condition.same_iff (c d : Condition) : c.same d = true ↔
    c.field = d.field ∧ c.operator = d.operator ∧ c.value.same d.value = true ∧ c.tag = d.tag := by
  simp [same, and_assoc]

theorem Condition.partialEquality : PartialEquality same fun c => c.value.isNaN where
  comm c d := by
    simp only [same, BEq.comm (a := c.field), BEq.comm (a := c.operator), BEq.comm (a := c.tag),
      Scalar.partialEquality.comm c.value]
  trans h h' := by
    rw [same_iff] at h h' ⊢
    obtain ⟨hfield, hoperator, hvalue, htag⟩ := h
    obtain ⟨hfield', hoperator', hvalue', htag'⟩ := h'
    exact ⟨hfield.trans hfield', hoperator.trans hoperator',
      Scalar.partialEquality.trans hvalue hvalue', htag.trans htag'⟩
  self c := by
    rw [same, beq_self_eq_true, beq_self_eq_true, beq_self_eq_true, Bool.and_true, Bool.true_and,
      Bool.true_and, Scalar.partialEquality.self]

/-! ## trees, place by place -/

namespace Rule

mutual

inductive Same : Rule → Rule → Prop
  | condition {c d : Condition} (h : c.same d = true) : Same (.condition c) (.condition d)
  | group {rs ss : List Rule} (join : Join) (tag : Option String) (h : AllSame rs ss) :
    Same (.group join rs tag) (.group join ss tag)

inductive AllSame : List Rule → List Rule → Prop
  | nil : AllSame [] []
  | cons {r s : Rule} {rs ss : List Rule} (h : Same r s) (hs : AllSame rs ss) :
    AllSame (r :: rs) (s :: ss)

end

theorem same_group_iff (j k : Join) (rs ss : List Rule) (t u : Option String) :
    (group j rs t).same (group k ss u) = true ↔ j = k ∧ sameAll rs ss = true ∧ t = u := by
  simp [same, and_assoc]

mutual

theorem same_iff : ∀ r s : Rule, r.same s = true ↔ Same r s
  | .condition _, .condition _ => ⟨.condition, fun | .condition h => h⟩
  | .group j rs t, .group k ss u => by
    rw [same_group_iff, sameAll_iff rs ss]
    constructor
    · rintro ⟨rfl, h, rfl⟩
      exact .group j t h
    · rintro (_ | ⟨_, _, h⟩)
      exact ⟨rfl, h, rfl⟩
  | .condition _, .group _ _ _ => ⟨fun h => (nomatch h), fun h => (nomatch h)⟩
  | .group _ _ _, .condition _ => ⟨fun h => (nomatch h), fun h => (nomatch h)⟩

theorem sameAll_iff : ∀ rs ss : List Rule, sameAll rs ss = true ↔ AllSame rs ss
  | [], [] => iff_of_true rfl .nil
  | r :: rs, s :: ss => by
    rw [sameAll_cons, Bool.and_eq_true, same_iff r s, sameAll_iff rs ss]
    constructor
    · rintro ⟨h, hs⟩
      exact .cons h hs
    · rintro (_ | ⟨h, hs⟩)
      exact ⟨h, hs⟩
  | [], _ :: _ => ⟨fun h => (nomatch h), fun h => (nomatch h)⟩
  | _ :: _, [] => ⟨fun h => (nomatch h), fun h => (nomatch h)⟩

end

/-! ## an equality -/

mutual

theorem Same.symm : ∀ {r s : Rule}, Same r s → Same s r
  | _, _, .condition h => .condition ((Condition.partialEquality.comm _ _).trans h)
  | _, _, .group join tag h => .group join tag h.symm

theorem AllSame.symm : ∀ {rs ss : List Rule}, AllSame rs ss → AllSame ss rs
  | _, _, .nil => .nil
  | _, _, .cons h hs => .cons h.symm hs.symm

end

mutual

theorem Same.trans : ∀ {q r s : Rule}, Same q r → Same r s → Same q s
  | _, _, _, .condition h, .condition h' => .condition (Condition.partialEquality.trans h h')
  | _, _, _, .group join tag h, .group _ _ h' => .group join tag (h.trans h')

theorem AllSame.trans : ∀ {qs rs ss : List Rule}, AllSame qs rs → AllSame rs ss → AllSame qs ss
  | _, _, _, .nil, .nil => .nil
  | _, _, _, .cons h hs, .cons h' hs' => .cons (h.trans h') (hs.trans hs')

end

mutual

theorem same_self : ∀ r : Rule, r.same r = !r.anyValue Scalar.isNaN
  | .condition c => Condition.partialEquality.self c
  | .group join members tag => by
    show (join == join && sameAll members members && tag == tag) = !anyOfAll Scalar.isNaN members
    rw [beq_self_eq_true, beq_self_eq_true, Bool.and_true, Bool.true_and, sameAll_self members]

theorem sameAll_self : ∀ rs : List Rule, sameAll rs rs = !anyOfAll Scalar.isNaN rs
  | [] => rfl
  | r :: rs => by
    rw [sameAll_cons, anyOfAll, Bool.not_or, same_self r, sameAll_self rs]

end

/-- **Trees have an equality, but for those that hold a NaN.** -/
theorem partialEquality : PartialEquality same (anyValue Scalar.isNaN) where
  comm r s := by
    rw [Bool.eq_iff_iff, same_iff, same_iff]
    exact ⟨Same.symm, Same.symm⟩
  trans h h' := by
    rw [same_iff] at h h' ⊢
    exact h.trans h'
  self := same_self

/-! ## depth and conditions -/

mutual

theorem Same.depth : ∀ {r s : Rule}, Same r s → r.depth = s.depth
  | _, _, .condition _ => rfl
  | _, _, .group _ _ h => congrArg (1 + ·) h.depthOfAll

theorem AllSame.depthOfAll : ∀ {rs ss : List Rule}, AllSame rs ss →
    Rule.depthOfAll rs = Rule.depthOfAll ss
  | _, _, .nil => rfl
  | _, _, .cons h hs => congrArg₂ max h.depth hs.depthOfAll

end

section
variable {P : Condition → Condition → Prop} (hP : ∀ c d : Condition, c.same d = true → P c d)
include hP

mutual

/-- trees that are the same have one shape and one join at each place -/
theorem Same.matches : ∀ {r s : Rule}, Same r s → Matches P Eq r s
  | _, _, .condition h => hP _ _ h
  | _, _, .group _ _ h => ⟨rfl, h.matches⟩

theorem AllSame.matches : ∀ {rs ss : List Rule}, AllSame rs ss → AllMatch P Eq rs ss
  | _, _, .nil => trivial
  | _, _, .cons h hs => ⟨h.matches, hs.matches⟩

end

end

theorem Same.isValid {r s : Rule} (h : Same r s) : r.isValid = s.isValid :=
  (h.matches fun c d hcd => ((c.same_iff d).mp hcd).1).isValid fun c d hfield => by
    rw [Condition.isUsable, Condition.isUsable, hfield]

end Rule

/-! ## queries -/

theorem Condition.alike_of_same (c d : Condition) (h : c.same d = true) : c.Alike d := by
  obtain ⟨hfield, hoperator, -⟩ := (c.same_iff d).mp h
  exact ⟨hfield, by rw [Condition.operatorKey, Condition.operatorKey, hoperator]⟩

namespace Rule

section
variable {ops : Operators} (hops : ops.OfForms) (token : String) {r s : Rule}
include hops

theorem Same.text_query (h : Same r s) : (r.query ops token).text = (s.query ops token).text :=
  text_query_congr hops token (h.matches Condition.alike_of_same)

theorem Same.values_query (h : Same r s) :
    List.Forall₂ (fun v w => v.same w = true) (r.query ops token).values
      (s.query ops token).values := by
  have hmatches := h.matches fun _ _ hcd => hcd
  obtain ⟨hr, hs⟩ := values_query_zip hops token hmatches (fun c d hcd =>
    Operators.binds_congr hops (c.alike_of_same d hcd).isUsable (c.alike_of_same d hcd).2) token
  obtain ⟨-, hzip⟩ := List.forall₂_iff_zip.mp hmatches.conditions
  rw [hr, hs, List.forall₂_map_left_iff, List.forall₂_map_right_iff, List.forall₂_same]
  intro p hp
  exact ((p.1.same_iff p.2).mp (hzip (List.mem_of_mem_filter hp))).2.2.1

end

/-! ## finding and removing -/

theorem Same.tag {r s : Rule} : Same r s → r.tag = s.tag
  | .condition h => ((Condition.same_iff _ _).mp h).2.2.2
  | .group _ _ _ => rfl

section
variable (tag : String)

mutual

theorem Same.findBelow? : ∀ {r s : Rule}, Same r s →
    Option.Rel Same (r.findBelow? tag) (s.findBelow? tag)
  | _, _, .condition _ => .none
  | _, _, .group _ _ h => h.findAmong?

theorem AllSame.findAmong? : ∀ {rs ss : List Rule}, AllSame rs ss →
    Option.Rel Same (Rule.findAmong? tag rs) (Rule.findAmong? tag ss)
  | _, _, .nil => .none
  | r :: rs, s :: ss, .cons h hs => by
    have hbelow := h.findBelow?
    rw [Rule.findAmong?, Rule.findAmong?, ← h.tag]
    split_ifs
    · exact .some h
    · generalize r.findBelow? tag = found at hbelow ⊢
      generalize s.findBelow? tag = found' at hbelow ⊢
      cases hbelow with
      | none => exact hs.findAmong?
      | some hfound => exact .some hfound

end

mutual

theorem Same.without : ∀ {r s : Rule}, Same r s → Same (r.without tag) (s.without tag)
  | _, _, .condition h => .condition h
  | _, _, .group join t h => .group join t h.withoutAll

theorem AllSame.withoutAll : ∀ {rs ss : List Rule}, AllSame rs ss →
    AllSame (Rule.withoutAll tag rs) (Rule.withoutAll tag ss)
  | _, _, .nil => .nil
  | _, _, .cons h hs => by
    rw [Rule.withoutAll, Rule.withoutAll, ← h.tag]
    split_ifs
    · exact hs.withoutAll
    · exact .cons h.without hs.withoutAll

end

mutual

theorem Same.countBelow : ∀ {r s : Rule}, Same r s → r.countBelow tag = s.countBelow tag
  | _, _, .condition _ => rfl
  | _, _, .group _ _ h => h.countAmong

theorem AllSame.countAmong : ∀ {rs ss : List Rule}, AllSame rs ss →
    Rule.countAmong tag rs = Rule.countAmong tag ss
  | _, _, .nil => rfl
  | _, _, .cons h hs => by
    rw [Rule.countAmong, Rule.countAmong, ← h.tag, h.countBelow, hs.countAmong]

end

end

end Rule

/-! ## groups -/

/-- the same depth, validity and text, and values that are the same in pairs -/
structure Rule.LooksLike (ops : Operators) (token : String) (r s : Rule) : Prop where
  depth_eq : r.depth = s.depth
  isValid_eq : r.isValid = s.isValid
  text_eq : (r.query ops token).text = (s.query ops token).text
  values_same : List.Forall₂ (fun v w => v.same w = true) (r.query ops token).values
    (s.query ops token).values

theorem Rule.Same.looksLike {ops : Operators} (hops : ops.OfForms) (token : String) {r s : Rule}
    (h : Same r s) : r.LooksLike ops token s :=
  ⟨h.depth, h.isValid, h.text_query hops token, h.values_query hops token⟩

namespace Group
open Calendar

/-- the equality of trees, on those that are groups -/
theorem partialEquality : PartialEquality same (anyValue Scalar.isNaN) where
  comm g h := Rule.partialEquality.comm g.toRule h.toRule
  trans {g h k} hgh hhk :=
    Rule.partialEquality.trans (a := g.toRule) (b := h.toRule) (c := k.toRule) hgh hhk
  self g := Rule.partialEquality.self g.toRule

theorem same_iff (g h : Group) : g.same h = true ↔ Rule.Same g.toRule h.toRule :=
  Rule.same_iff g.toRule h.toRule

/-- **Equality is sound, and what is done with trees respects it.**

* On values, rules and groups it is symmetric and transitive, and something is the same as itself
  just when it holds no NaN.
* Values that are the same are of one kind.  Decimals are the same when they are the same rational
  number, and moments with an offset when they have the same universal time.
* Trees that are the same have the same depth, validity and text, bind values that are the same in
  pairs, and for every tag find rules that are the same or none, and are left the same by a
  removal, which takes out as many rules of each. -/
theorem same_respected {ops : Operators} (hops : ops.OfForms) :
    PartialEquality Scalar.same Scalar.isNaN ∧
    PartialEquality Rule.same (Rule.anyValue Scalar.isNaN) ∧
    PartialEquality Group.same (Group.anyValue Scalar.isNaN) ∧
    (∀ v w : Scalar, v.same w = true → v.kind? = w.kind?) ∧
    (∀ a b : Decimal, (Scalar.decimal a).same (.decimal b) = true ↔ a.value = b.value) ∧
    (∀ a b : OffsetDateTime, (∃! u, a.IsAt u) ∧
      ((Scalar.offsetDateTime a).same (.offsetDateTime b) = true ↔ ∃ u, a.IsAt u ∧ b.IsAt u)) ∧
    (∀ (token : String) (r s : Rule), r.same s = true → r.LooksLike ops token s) ∧
    ∀ (token tag : String) (g h : Group), g.same h = true →
      g.toRule.LooksLike ops token h.toRule ∧
      Option.Rel (fun r s => r.same s = true) (g.find? tag) (h.find? tag) ∧
      (g.remove tag).2 = (h.remove tag).2 ∧ (g.remove tag).1.same (h.remove tag).1 = true := by
  refine ⟨Scalar.partialEquality, Rule.partialEquality, partialEquality,
    fun _ _ => Scalar.kind?_eq_of_same, Decimal.same_iff,
    fun a b => ⟨a.existsUnique_isAt, a.same_iff b⟩, ?_, ?_⟩
  · intro token r s h
    exact ((Rule.same_iff r s).mp h).looksLike hops token
  · intro token tag g h hgh
    have hsame := (same_iff g h).mp hgh
    have hmembers : Rule.AllSame g.members h.members :=
      (Rule.sameAll_iff _ _).mp ((Rule.same_group_iff _ _ _ _ _ _).mp hgh).2.1
    have hleft : (g.remove tag).1.same (h.remove tag).1 = true :=
      (same_iff _ _).mpr (hsame.without tag)
    refine ⟨hsame.looksLike hops token, ?_, hmembers.countAmong tag, hleft⟩
    have hfound := hmembers.findAmong? tag
    simp only [Rule.same_iff]
    exact hfound

/-- a price written with one decimal or two, and one instant on two clocks -/
theorem same_respected_noon :
    let price (d : Decimal) : Rule := .condition ⟨"price", "less-than", .decimal d, some "p"⟩
    let due (d : OffsetDateTime) : Rule := .condition ⟨"at", "", .offsetDateTime d, none⟩
    let group (d : Decimal) (t : OffsetDateTime) : Group :=
      ⟨.and, [price d, .group .or [due t, price d] none], some "p"⟩
    let noon : OffsetDateTime :=
      ⟨⟨⟨2024, 2, 29, by decide⟩, ⟨12, 0, 0, 0, by decide⟩⟩, 0, by decide +kernel⟩
    let later : OffsetDateTime :=
      ⟨⟨⟨2024, 2, 29, by decide⟩, ⟨13, 0, 0, 0, by decide⟩⟩, 3600, by decide +kernel⟩
    let g := group ⟨false, 15, 1, by decide, by decide⟩ noon
    let h := group ⟨false, 150, 2, by decide, by decide⟩ later
    g.same h = true ∧ noon ≠ later ∧
      (g.query .builtin "t").text = (h.query .builtin "t").text ∧
      (g.remove "p").2 = 2 ∧ (h.remove "p").2 = 2 ∧
      (g.remove "p").1.same (h.remove "p").1 = true ∧ ∃ u, noon.IsAt u ∧ later.IsAt u := by
  intro price due group noon later g h
  have hsame : g.same h = true := by decide +kernel
  obtain ⟨-, -, -, -, -, hmoments, -, hgroups⟩ := same_respected Operators.ofForms_builtin
  obtain ⟨hlooks, -, hcount, hleft⟩ := hgroups "t" "p" g h hsame
  have htwo : (g.remove "p").2 = 2 := by decide +kernel
  exact ⟨hsame, by decide, hlooks.text_eq, htwo, hcount.symm.trans htwo, hleft,
    (hmoments noon later).2.mp (by decide +kernel)⟩

end Group
end SavedFilter
