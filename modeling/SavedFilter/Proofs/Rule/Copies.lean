import SavedFilter.Proofs.Scalar.RoundTrip
import SavedFilter.Rule.Shape

/-!
# Copies of trees

What is read back for a tree is the tree with the values that are read back for its values:

* `Rule.mapValues`, `Rule.anyValue`   a tree with other values, and a test of its values;
* `Rule.canonical`                    the tree that is read back;
* `Rule.IsCopy`                       equality of trees up to copies of values;
* `Rule.same_canonical`, `Rule.toJson_canonical_eq_iff`   only a NaN makes the copy another tree to
                                      `same`, and only a negative zero makes its JSON another one.
-/

namespace SavedFilter

/-! ## trees and their values -/

def Condition.mapValue (f : Scalar → Scalar) (c : Condition) : Condition :=
  { c with value := f c.value }

namespace Rule

mutual

/-- the tree with `f` applied to every value -/
def mapValues (f : Scalar → Scalar) : Rule → Rule
  | .condition c => .condition (c.mapValue f)
  | .group join members tag => .group join (mapAll f members) tag

def mapAll (f : Scalar → Scalar) : List Rule → List Rule
  | [] => []
  | r :: rs => r.mapValues f :: mapAll f rs

end

mutual

/-- some value at any depth passes the test -/
def anyValue (p : Scalar → Bool) : Rule → Bool
  | .condition c => p c.value
  | .group _ members _ => anyOfAll p members

def anyOfAll (p : Scalar → Bool) : List Rule → Bool
  | [] => false
  | r :: rs => r.anyValue p || anyOfAll p rs

end

mutual

theorem depth_mapValues (f : Scalar → Scalar) : ∀ r : Rule, (r.mapValues f).depth = r.depth
  | .condition _ => rfl
  | .group _ members _ => congrArg (1 + ·) (depthOfAll_mapAll f members)

theorem depthOfAll_mapAll (f : Scalar → Scalar) :
    ∀ rs : List Rule, depthOfAll (mapAll f rs) = depthOfAll rs
  | [] => rfl
  | r :: rs => by
    rw [mapAll, depthOfAll_cons, depthOfAll_cons, depth_mapValues f r, depthOfAll_mapAll f rs]

end

end Rule

/-! ## copies -/

/-- a condition with the same field, operator and tag, and a copy of the value -/
def Condition.IsCopy (c d : Condition) : Prop :=
  c.field = d.field ∧ c.operator = d.operator ∧ c.value.IsCopy d.value ∧ c.tag = d.tag

def Condition.canonical (c : Condition) : Condition := c.mapValue Scalar.canonical

namespace Rule

mutual

/-- a tree of the same shape, with the same joins and tags and copies of the conditions in the same
order -/
def IsCopy : Rule → Rule → Prop
  | .condition c, .condition d => c.IsCopy d
  | .group j ms t, .group k ns u => j = k ∧ AreCopies ms ns ∧ t = u
  | _, _ => False

def AreCopies : List Rule → List Rule → Prop
  | [], [] => True
  | r :: rs, s :: ss => r.IsCopy s ∧ AreCopies rs ss
  | _, _ => False

end

def canonical (r : Rule) : Rule := r.mapValues Scalar.canonical

def canonicalAll (rs : List Rule) : List Rule := mapAll Scalar.canonical rs

mutual

theorem isCopy_canonical : ∀ r : Rule, r.IsCopy r.canonical
  | .condition c => ⟨rfl, rfl, c.value.isCopy_canonical, rfl⟩
  | .group _ members _ => ⟨rfl, areCopies_canonical members, rfl⟩

theorem areCopies_canonical : ∀ rs : List Rule, AreCopies rs (canonicalAll rs)
  | [] => trivial
  | r :: rs => ⟨isCopy_canonical r, areCopies_canonical rs⟩

end

mutual

/-- a tree and what is read back for it are the same, unless there is a NaN -/
theorem same_canonical : ∀ r : Rule, r.canonical.same r = !r.anyValue Scalar.isNaN
  | .condition c => by
    show (c.field == c.field && c.operator == c.operator && c.value.canonical.same c.value &&
      c.tag == c.tag) = !c.value.isNaN
    rw [beq_self_eq_true, beq_self_eq_true, beq_self_eq_true, Bool.and_true, Bool.true_and,
      Bool.true_and, c.value.same_canonical]
  | .group join members tag => by
    show (join == join && sameAll (canonicalAll members) members && tag == tag) =
      !anyOfAll Scalar.isNaN members
    rw [beq_self_eq_true, beq_self_eq_true, Bool.and_true, Bool.true_and, sameAll_canonical members]

theorem sameAll_canonical : ∀ rs : List Rule,
    sameAll (canonicalAll rs) rs = !anyOfAll Scalar.isNaN rs
  | [] => rfl
  | r :: rs => by
    show (r.canonical.same r && sameAll (canonicalAll rs) rs) =
      !(r.anyValue Scalar.isNaN || anyOfAll Scalar.isNaN rs)
    rw [same_canonical r, sameAll_canonical rs, Bool.not_or]

end

end Rule

theorem Condition.members_canonical_eq_iff (c : Condition) :
    c.canonical.members = c.members ↔ c.value.isNegativeZero = false := by
  have hnull : c.canonical.value.isNull = c.value.isNull := c.value.isNull_canonical
  rw [← c.value.envelope_canonical_eq_iff, Condition.members, Condition.members, hnull]
  cases hn : c.value.isNull with
  | true =>
    obtain hv := (Scalar.isNull_iff c.value).mp hn
    apply iff_of_true rfl
    rw [hv]
    rfl
  | false =>
    simp only [Condition.canonical, Condition.mapValue, Bool.false_eq_true, if_false,
      List.cons_append, List.nil_append, List.cons.injEq, Prod.mk.injEq, true_and, and_true]

namespace Rule

mutual

/-- The JSON of what is read back is the same, unless a zero has lost its sign. -/
theorem toJson_canonical_eq_iff : ∀ r : Rule,
    r.canonical.toJson = r.toJson ↔ r.anyValue Scalar.isNegativeZero = false
  | .condition c => by
    show Json.obj (("type", .str "filter") :: c.canonical.members) =
      .obj (("type", .str "filter") :: c.members) ↔ c.value.isNegativeZero = false
    rw [← c.members_canonical_eq_iff, Json.obj.injEq, List.cons_inj_right]
  | .group join members tag => by
    show Json.obj (_ :: _ :: ("filters", .arr (toJsonAll (canonicalAll members))) :: _) =
      .obj (_ :: _ :: ("filters", .arr (toJsonAll members)) :: _) ↔
      anyOfAll Scalar.isNegativeZero members = false
    rw [← toJsonAll_canonical_eq_iff members]
    simp only [Json.obj.injEq, List.cons.injEq, Prod.mk.injEq, Json.arr.injEq, true_and, and_true]

theorem toJsonAll_canonical_eq_iff : ∀ rs : List Rule,
    toJsonAll (canonicalAll rs) = toJsonAll rs ↔ anyOfAll Scalar.isNegativeZero rs = false
  | [] => iff_of_true rfl rfl
  | r :: rs => by
    show r.canonical.toJson :: toJsonAll (canonicalAll rs) = r.toJson :: toJsonAll rs ↔
      (r.anyValue Scalar.isNegativeZero || anyOfAll Scalar.isNegativeZero rs) = false
    rw [List.cons.injEq, Bool.or_eq_false_iff, toJson_canonical_eq_iff r,
      toJsonAll_canonical_eq_iff rs]

end

end Rule

/-! ## roots -/

namespace Group

def canonical (g : Group) : Group := { g with members := Rule.canonicalAll g.members }

def IsCopy (g h : Group) : Prop :=
  g.join = h.join ∧ Rule.AreCopies g.members h.members ∧ g.tag = h.tag

def anyValue (p : Scalar → Bool) (g : Group) : Bool := Rule.anyOfAll p g.members

theorem isCopy_canonical (g : Group) : g.IsCopy g.canonical :=
  ⟨rfl, Rule.areCopies_canonical g.members, rfl⟩

theorem depth_canonical (g : Group) : g.canonical.depth = g.depth :=
  congrArg (1 + ·) (Rule.depthOfAll_mapAll Scalar.canonical g.members)

theorem same_canonical (g : Group) : g.canonical.same g = !g.anyValue Scalar.isNaN := by
  show (g.join == g.join && Rule.sameAll (Rule.canonicalAll g.members) g.members &&
    g.tag == g.tag) = _
  rw [beq_self_eq_true, beq_self_eq_true, Bool.and_true, Bool.true_and, Rule.sameAll_canonical]
  rfl

theorem toJson_canonical_eq_iff (g : Group) :
    g.canonical.toJson = g.toJson ↔ g.anyValue Scalar.isNegativeZero = false := by
  rw [anyValue, ← Rule.toJsonAll_canonical_eq_iff g.members]
  simp only [toJson, canonical, Json.obj.injEq, List.cons.injEq, Prod.mk.injEq, Json.arr.injEq,
    true_and, and_true]

end Group
end SavedFilter
