import SavedFilter.Proofs.Query.Codes
import SavedFilter.Proofs.Query.Pruning
import SavedFilter.Proofs.Query.Separation

/-!
# What a new entry changes

The emitters of a table may be of any kind here.  A tree asks the table for the operators of its
usable conditions and for nothing else:

* `Rule.Uses`           a usable condition of the tree has its operator under a normal form;
* `compose?_congr`      tables that agree on the operators of a tree compose it alike;
* `find_insert_of_ne`   an entry is found under its own normal form only;
* `build_insert`        so it is felt by the trees that use this normal form, and by no others.

A blank operator is looked up as the default one, and so the blank normal form is never looked up.
A code without entry is compared as `==`, which is no entry of the table.
-/

namespace SavedFilter

/-- a condition that names a field has its operator under this normal form -/
def Rule.Uses (r : Rule) (key : String) : Prop :=
  ∃ c ∈ r.conditions, c.isUsable = true ∧ c.operatorKey = key

instance (r : Rule) (key : String) : Decidable (r.Uses key) :=
  inferInstanceAs (Decidable (∃ c ∈ r.conditions, c.isUsable = true ∧ c.operatorKey = key))

/-- the operator is not blank, and the table has no entry for it -/
def Condition.IsUnknown (ops : Operators) (c : Condition) : Prop :=
  Text.allBlank c.operator = false ∧ ops.contains c.operator = false

/-! ## tables that agree -/

section
variable {ops ops' : Operators}

theorem Condition.compose?_congr {c : Condition}
    (h : c.isUsable = true → ops'.find c.operatorCode = ops.find c.operatorCode) (b : Buffer) :
    c.compose? ops' b = c.compose? ops b := by
  unfold compose?
  by_cases hu : c.isUsable = true
  · rw [h hu]
  · rw [if_neg hu, if_neg hu]

namespace Rule

mutual

/-- tables that agree on the operators of the usable conditions put the same into every buffer -/
theorem compose?_congr : ∀ r : Rule,
    (∀ c ∈ r.conditions, c.isUsable = true →
      ops'.find c.operatorCode = ops.find c.operatorCode) →
    ∀ b : Buffer, r.compose? ops' b = r.compose? ops b
  | .condition c, h, b => Condition.compose?_congr (h c List.mem_cons_self) b
  | .group join members tag, h, b => by
    rw [compose?, compose?, composeAll?_congr members h]

theorem composeAll?_congr {join : Join} : ∀ rs : List Rule,
    (∀ c ∈ conditionsOfAll rs, c.isUsable = true →
      ops'.find c.operatorCode = ops.find c.operatorCode) →
    ∀ (b : Buffer) (started : Bool),
      composeAll? ops' join b started rs = composeAll? ops join b started rs
  | [], _, _, _ => rfl
  | r :: rs, h, b, started => by
    obtain ⟨hr, hrs⟩ := List.forall_mem_append.mp h
    rw [composeAll?, composeAll?, compose?_congr r hr]
    cases r.compose? ops (if started then b.write (separator join) else b) with
    | none => exact composeAll?_congr rs hrs b started
    | some next => exact composeAll?_congr rs hrs next true

end

end Rule

theorem Builder.build_congr {r : Option Rule}
    (h : ∀ s ∈ r, ∀ c ∈ s.conditions, c.isUsable = true →
      ops'.find c.operatorCode = ops.find c.operatorCode) (b : Builder) :
    b.build ops' r = b.build ops r := by
  cases r with
  | none => rfl
  | some s =>
    show b.reset.visit ops' s = b.reset.visit ops s
    rw [visit, visit, Rule.compose?_congr s (h s rfl)]

end

/-! ## one entry more -/

section
variable {ops : Operators} {code : String} {e : Emitter} {c : Condition}

theorem Operators.find_insert_self (h : c.operatorKey = normalForm code) :
    (ops.insert code e).find c.operatorCode = e := by
  rw [find_insert, c.normalForm_operatorCode, if_pos h.symm]

theorem Operators.find_insert_of_ne (h : c.operatorKey ≠ normalForm code) :
    (ops.insert code e).find c.operatorCode = ops.find c.operatorCode := by
  rw [find_insert, c.normalForm_operatorCode, if_neg (Ne.symm h)]

/-- entries under different normal forms may be made in either order -/
theorem Operators.find_insert_comm {code' : String} {e' : Emitter}
    (h : normalForm code ≠ normalForm code') (other : String) :
    ((ops.insert code e).insert code' e').find other =
      ((ops.insert code' e').insert code e).find other := by
  simp only [find_insert]
  split_ifs with h' h''
  · exact absurd (h''.trans h'.symm) h
  all_goals rfl

theorem Operators.normalForm_of_allBlank (h : Text.allBlank code = true) :
    normalForm code = "" := by
  rw [normalForm, (Text.trim_eq_nil_iff code.toList).mpr h]
  rfl

/-- no condition is looked up under the blank normal form -/
theorem Condition.operatorKey_ne_blank (c : Condition) : c.operatorKey ≠ "" := by
  unfold operatorKey
  split_ifs with h
  · decide
  · intro hblank
    have hnil := congrArg String.toList hblank
    rw [Operators.normalForm, String.toList_ofList] at hnil
    exact h ((Text.trim_eq_nil_iff c.operator.toList).mp (List.map_eq_nil_iff.mp hnil))

theorem Condition.operatorKey_of_allBlank (h : Text.allBlank c.operator = true) :
    c.operatorKey = "equal" := if_pos h

theorem Condition.IsUnknown.operatorKey_eq (h : c.IsUnknown ops) :
    c.operatorKey = Operators.normalForm c.operator := by
  rw [operatorKey, h.1, if_neg Bool.false_ne_true]

/-- a code that has no entry after one has been made is another one -/
theorem Condition.IsUnknown.operatorKey_ne (h : c.IsUnknown (ops.insert code e)) :
    c.operatorKey ≠ Operators.normalForm code := by
  intro hkey
  have hcontains : (ops.insert code e).contains c.operator = true := by
    rw [Operators.contains_iff, Operators.mem_codes_insert, ← h.operatorKey_eq]
    exact .inl hkey.symm
  exact Bool.false_ne_true (h.2.symm.trans hcontains)

theorem Condition.IsUnknown.find_eq (h : c.IsUnknown ops) :
    ops.find c.operatorCode = .comparison "==" := by
  have hmem : Operators.normalForm c.operator ∉ ops.table := by
    intro hmem
    have hcontains : ops.contains c.operator = true := Std.TreeMap.contains_iff_mem.mpr hmem
    exact Bool.false_ne_true (h.2.symm.trans hcontains)
  rw [Operators.find, c.normalForm_operatorCode, h.operatorKey_eq,
    Std.TreeMap.getElem?_eq_none hmem]
  rfl

/-- a usable condition alone is what its emitter writes, or nothing if that has no text -/
theorem Builder.build_condition (hu : c.isUsable = true) (b : Builder) :
    b.build ops (some (.condition c)) =
      ⟨b.token, if (ops.find c.operatorCode c (.empty b.token)).isEmpty then .none
        else ops.find c.operatorCode c (.empty b.token)⟩ := by
  show Builder.mk b.token ((c.compose? ops (.empty b.token)).getD (.empty b.token)).query = _
  rw [Condition.compose?, if_pos hu]
  dsimp only
  split_ifs
  · rfl
  · exact congrArg (Builder.mk b.token) (Query.none_append _)

end

/-- **An entry is felt where its operator is used, and nowhere else.**

* A tree that does not use its normal form is built as it was before.
* So an entry under a blank code is never felt.
* An entry for the default operator is what a condition with a blank operator is written with, and
  conditions whose operator has no entry are still compared as `==`.
* Two entries under different normal forms may be made in either order. -/
theorem build_insert (ops : Operators) (code : String) (e : Emitter) (b : Builder) :
    (∀ r : Rule, ¬ r.Uses (Operators.normalForm code) →
      b.build (ops.insert code e) (some r) = b.build ops (some r)) ∧
    (Text.allBlank code = true → ∀ r : Option Rule,
      b.build (ops.insert code e) r = b.build ops r) ∧
    (Operators.normalForm code = "equal" →
      (∀ c : Condition, Text.allBlank c.operator = true →
        (ops.insert code e).find c.operatorCode = e ∧
        (c.isUsable = true → b.build (ops.insert code e) (some (.condition c)) =
          ⟨b.token, if (e c (.empty b.token)).isEmpty then .none else e c (.empty b.token)⟩)) ∧
      ∀ r : Rule, (∀ c ∈ r.conditions, c.isUsable = true → c.IsUnknown (ops.insert code e)) →
        b.build (ops.insert code e) (some r) = b.build ops (some r) ∧
        ∀ c ∈ r.conditions, c.isUsable = true →
          (ops.insert code e).find c.operatorCode = .comparison "==") ∧
    (∀ (code' : String) (e' : Emitter), Operators.normalForm code ≠ Operators.normalForm code' →
      ∀ r : Option Rule, b.build ((ops.insert code e).insert code' e') r =
        b.build ((ops.insert code' e').insert code e) r) := by
  have hframe : ∀ r : Rule, ¬ r.Uses (Operators.normalForm code) →
      b.build (ops.insert code e) (some r) = b.build ops (some r) := by
    intro r hr
    refine b.build_congr ?_
    rintro s ⟨⟩ c hc hu
    exact Operators.find_insert_of_ne fun hkey => hr ⟨c, hc, hu, hkey⟩
  refine ⟨hframe, ?_, ?_, ?_⟩
  · intro hblank r
    cases r with
    | none => rfl
    | some r =>
      apply hframe
      rintro ⟨c, -, -, hkey⟩
      exact c.operatorKey_ne_blank (hkey.trans (Operators.normalForm_of_allBlank hblank))
  · intro hdefault
    constructor
    · intro c hblank
      have hkey := (Condition.operatorKey_of_allBlank hblank).trans hdefault.symm
      have hfind : (ops.insert code e).find c.operatorCode = e := Operators.find_insert_self hkey
      refine ⟨hfind, fun hu => ?_⟩
      rw [Builder.build_condition hu, hfind]
    · intro r hunknown
      refine ⟨hframe r ?_, fun c hc hu => (hunknown c hc hu).find_eq⟩
      rintro ⟨c, hc, hu, hkey⟩
      exact (hunknown c hc hu).operatorKey_ne hkey
  · intro code' e' hne r
    exact b.build_congr fun _ _ _ _ _ => Operators.find_insert_comm hne _

/-- a code that stands at a blank field only, a blank code, the default operator in another
spelling, and two codes of which one is spelt like the other but for a hyphen -/
theorem build_insert_near :
    let near : Emitter := fun c b => ⟨b.query.text ++ c.field ++ "~", [c.value, .null]⟩
    let r : Rule := .group .or [.condition ⟨" ", "Near", .null, none⟩,
      .condition ⟨"A", "", .bool true, none⟩, .condition ⟨"B", "between", .bool false, none⟩] none
    let unknown : Rule := .condition ⟨"B", "between", .bool false, none⟩
    let b : Builder := .new "t"
    let ops := Operators.builtin
    ¬ r.Uses (Operators.normalForm " NEAR") ∧
      b.build (ops.insert " NEAR" near) (some r) = b.build ops (some r) ∧
      b.build (ops.insert "\t" near) (some r) = b.build ops (some r) ∧
      b.build (ops.insert "EQUAL" near) (some (.condition ⟨"A", "", .bool true, none⟩)) =
        ⟨"t", ⟨"A~", [.bool true, .null]⟩⟩ ∧
      b.build (ops.insert "EQUAL" near) (some unknown) = ⟨"t", ⟨"B == @0", [.bool false]⟩⟩ ∧
      b.build (ops.insert "EQUAL" near) (some r) ≠ b.build ops (some r) ∧
      b.build ((ops.insert "EQUAL" near).insert "e-qual" (.nullTest "!")) (some r) =
        b.build ((ops.insert "e-qual" (.nullTest "!")).insert "EQUAL" near) (some r) := by
  intro near r unknown b ops
  have hr : ¬ r.Uses (Operators.normalForm " NEAR") := by decide +kernel
  have hunknown : ∀ c ∈ unknown.conditions, c.isUsable = true →
      c.IsUnknown (ops.insert "EQUAL" near) :=
    List.forall_mem_singleton.mpr fun _ => ⟨by decide, by decide +kernel⟩
  obtain ⟨hdefault, hother⟩ :=
    (build_insert ops "EQUAL" near b).2.2.1 (by decide)
  exact ⟨hr, (build_insert ops " NEAR" near b).1 r hr,
    (build_insert ops "\t" near b).2.1 (by decide) (some r),
    ((hdefault _ (by decide)).2 (by decide)).trans (by decide +kernel),
    (hother unknown hunknown).1.trans (by decide +kernel), by decide +kernel,
    (build_insert ops "EQUAL" near b).2.2.2 "e-qual" _ (by decide) (some r)⟩

end SavedFilter
