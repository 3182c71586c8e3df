import Mathlib.Data.List.Forall2
import SavedFilter.Proofs.Query.Extension

/-!
# Texts and values stay apart

With emitters of the built-in forms the values of a rule never show in the text of its query, and
what is only text (fields, joins, the token) never shows in the values:

* `Rule.Matches`            two trees of one shape, with a relation between the conditions and the
                            joins at the same places;
* `values_query`            the values of a query are those of the conditions that bind, in order;
* `isEmpty_query`           a query is empty just when no condition is usable;
* `text_query_congr`        trees with the same fields, joins and operators have the same text;
* `query_separated`         both directions, for any two trees.

Which conditions are left out is decided while the text grows, but it hangs on their fields and
operators alone (`Operators.binds`), so two runs over matching trees leave out the same ones.
-/

set_option linter.unusedSectionVars false

namespace SavedFilter

/-! ## the conditions of a tree -/

namespace Rule

mutual

/-- the conditions of a tree in pre-order -/
def conditions : Rule → List Condition
  | .condition c => [c]
  | .group _ members _ => conditionsOfAll members

def conditionsOfAll : List Rule → List Condition
  | [] => []
  | r :: rs => r.conditions ++ conditionsOfAll rs

end

section
variable (P : Condition → Condition → Prop) (J : Join → Join → Prop)

mutual

/-- the same shape, with `P` between the conditions and `J` between the joins at the same places -/
def Matches : Rule → Rule → Prop
  | .condition c, .condition d => P c d
  | .group j ms _, .group k ns _ => J j k ∧ AllMatch ms ns
  | .condition _, .group _ _ _ | .group _ _ _, .condition _ => False

def AllMatch : List Rule → List Rule → Prop
  | [], [] => True
  | r :: rs, s :: ss => Matches r s ∧ AllMatch rs ss
  | [], _ :: _ | _ :: _, [] => False

end

end

section
variable {P : Condition → Condition → Prop} {J : Join → Join → Prop}

mutual

theorem Matches.conditions : ∀ {r s : Rule}, Matches P J r s →
    List.Forall₂ P r.conditions s.conditions
  | .condition _, .condition _, h => .cons h .nil
  | .group _ _ _, .group _ _ _, h => AllMatch.conditions h.2
  | .condition _, .group _ _ _, h => h.elim
  | .group _ _ _, .condition _, h => h.elim

theorem AllMatch.conditions : ∀ {rs ss : List Rule}, AllMatch P J rs ss →
    List.Forall₂ P (conditionsOfAll rs) (conditionsOfAll ss)
  | [], [], _ => .nil
  | _ :: _, _ :: _, h => List.rel_append (Matches.conditions h.1) (AllMatch.conditions h.2)
  | [], _ :: _, h => h.elim
  | _ :: _, [], h => h.elim

end

end

mutual

theorem isValid_eq_any : ∀ r : Rule, r.isValid = r.conditions.any Condition.isUsable
  | .condition c => by
    show c.isUsable = (c.isUsable || false)
    rw [Bool.or_false]
  | .group _ members _ => anyValid_eq_any members

theorem anyValid_eq_any : ∀ rs : List Rule,
    anyValid rs = (conditionsOfAll rs).any Condition.isUsable
  | [] => rfl
  | r :: rs => by
    rw [anyValid_cons, conditionsOfAll, List.any_append, isValid_eq_any r, anyValid_eq_any rs]

end

end Rule

namespace Rule
variable {P : Condition → Condition → Prop} {J : Join → Join → Prop} {r s : Rule}

/-- whether a tree is valid hangs on which of its conditions are usable -/
theorem Matches.isValid (h : Matches P J r s) (hP : ∀ c d, P c d → c.isUsable = d.isUsable) :
    r.isValid = s.isValid := by
  rw [isValid_eq_any, isValid_eq_any]
  have hall := h.conditions
  generalize r.conditions = cs at hall ⊢
  generalize s.conditions = ds at hall ⊢
  induction hall with
  | nil => rfl
  | cons hcd _ ih => rw [List.any_cons, List.any_cons, hP _ _ hcd, ih]

end Rule

/-! ## what is written and what is bound -/

namespace Query

theorem values_enclose? (join : Join) (qs : List Query) :
    ((enclose? join qs).getD .none).values = (qs.map values).flatten := by
  cases qs <;> rfl

end Query

namespace Operators

/-- the value of the condition is bound in its query -/
def binds (ops : Operators) (c : Condition) : Bool :=
  c.isUsable && !(ops.find c.operatorCode c (.empty "")).values.isEmpty

/-- what the emitter of the operator of a condition adds behind `n` values -/
def emit (ops : Operators) (token : String) (n : Nat) (c : Condition) : Query :=
  (ops.find c.operatorCode).emit token n c

section
variable {ops : Operators}

theorem find_operatorCode_congr {c d : Condition} (h : c.operatorKey = d.operatorKey) :
    ops.find c.operatorCode = ops.find d.operatorCode := by
  apply find_congr
  rw [c.normalForm_operatorCode, d.normalForm_operatorCode, h]

variable (hops : ops.OfForms)
include hops

theorem emit_cases (token : String) (n : Nat) (c : Condition) :
    ∃ f : Form, ops.find c.operatorCode = f.emitter ∧
      ops.emit token n c = f.emitter.emit token n c ∧ ops.binds c = (c.isUsable && f.binds) := by
  obtain ⟨f, hf⟩ := hops c.operatorCode
  refine ⟨f, hf, by rw [emit, hf], ?_⟩
  rw [binds, hf]
  cases f <;> rfl

theorem binds_congr {c d : Condition} (hu : c.isUsable = d.isUsable)
    (hk : c.operatorKey = d.operatorKey) : ops.binds c = ops.binds d := by
  obtain ⟨f, hf, -, hc⟩ := emit_cases hops "" 0 c
  obtain ⟨g, hg, -, hd⟩ := emit_cases hops "" 0 d
  have hfg : f.emitter = g.emitter := by rw [← hf, ← hg, find_operatorCode_congr hk]
  have hbinds : f.binds = g.binds := by
    have hvalues := congrArg (fun e : Emitter => (e.emit "" 0 c).values.isEmpty) hfg
    simp only [Form.values_emit] at hvalues
    cases hb : f.binds <;> cases hb' : g.binds <;> simp_all
  rw [hc, hd, hu, hbinds]

end

end Operators

namespace Rule
variable {ops : Operators} (hops : ops.OfForms) (token : String)
include hops

theorem query_eq_render (r : Rule) :
    r.query ops token = (render? (ops.emit token) 0 r).getD .none := by
  apply query_eq
  rintro c b rfl
  exact (hops.isPositional c.operatorCode).eq_emit c b

/-- a condition that is usable is never left out -/
theorem renderCondition?_eq (n : Nat) (c : Condition) :
    renderCondition? (ops.emit token) n c =
      if c.isUsable then some (ops.emit token n c) else none := by
  obtain ⟨f, -, he, -⟩ := Operators.emit_cases hops token n c
  have hne : (ops.emit token n c).text ≠ "" := he ▸ f.text_emit_ne token n c
  rw [renderCondition?, if_neg hne]
  by_cases hf : Text.trim c.field.toList = []
  · rw [if_pos hf, if_neg fun hu => c.isUsable_iff.mp hu hf]
  · rw [if_neg hf, if_pos (c.isUsable_iff.mpr hf)]

/-! ## the values -/

theorem values_renderCondition? (n : Nat) (c : Condition) :
    ((renderCondition? (ops.emit token) n c).getD .none).values =
      if ops.binds c then [c.value] else [] := by
  obtain ⟨f, -, he, hb⟩ := Operators.emit_cases hops token n c
  rw [renderCondition?_eq hops, hb, he]
  cases c.isUsable with
  | false => rfl
  | true =>
    show (f.emitter.emit token n c).values = _
    rw [f.values_emit, Bool.true_and]

mutual

theorem values_render? : ∀ (r : Rule) (n : Nat),
    ((render? (ops.emit token) n r).getD .none).values =
      (r.conditions.filter ops.binds).map Condition.value
  | .condition c, n => by
    rw [render?, values_renderCondition? hops, conditions, List.filter_singleton]
    cases ops.binds c <;> rfl
  | .group join members tag, n => by
    rw [render?, Query.values_enclose?, values_renderAll members n]
    rfl

theorem values_renderAll : ∀ (rs : List Rule) (n : Nat),
    ((renderAll (ops.emit token) n rs).map Query.values).flatten =
      ((conditionsOfAll rs).filter ops.binds).map Condition.value
  | [], _ => rfl
  | r :: rs, n => by
    have hr := values_render? r n
    rw [conditionsOfAll, List.filter_append, List.map_append, ← hr, renderAll]
    cases render? (ops.emit token) n r with
    | none => exact values_renderAll rs n
    | some q => exact congrArg (q.values ++ ·) (values_renderAll rs _)

end

/-- **The values of a query are those of the conditions that bind**, in pre-order. -/
theorem values_query (r : Rule) :
    (r.query ops token).values = (r.conditions.filter ops.binds).map Condition.value := by
  rw [query_eq_render hops, values_render? hops]

/-- a query is empty just when no condition of its rule is usable -/
theorem isEmpty_query (r : Rule) : (r.query ops token).isEmpty = !r.isValid := by
  have htext := text_query_ne_iff token hops.speaks r
  rw [Bool.eq_iff_iff, Query.isEmpty_iff, Bool.not_eq_true', ← Bool.not_eq_true, ← htext, not_not]

end Rule

/-! ## the texts -/

/-- conditions that differ in value and tag, and in how the operator is spelt -/
def Condition.Alike (c d : Condition) : Prop := c.field = d.field ∧ c.operatorKey = d.operatorKey

/-- conditions that differ in tag and field, but not in whether the field is blank -/
def Condition.BindsAlike (c d : Condition) : Prop :=
  c.isUsable = d.isUsable ∧ c.operatorKey = d.operatorKey ∧ c.value = d.value

theorem Condition.Alike.isUsable {c d : Condition} (h : c.Alike d) : c.isUsable = d.isUsable := by
  rw [Condition.isUsable, Condition.isUsable, h.1]

/-- the text of a query and how many values it binds -/
def Query.outline (q : Query) : String × Nat := (q.text, q.values.length)

theorem Query.outline_enclose? (join : Join) {ps qs : List Query}
    (h : ps.map outline = qs.map outline) :
    (enclose? join ps).map outline = (enclose? join qs).map outline := by
  have htexts : ps.map text = qs.map text := by
    have := congrArg (List.map Prod.fst) h
    rwa [List.map_map, List.map_map] at this
  have hcounts : (ps.map values).flatten.length = (qs.map values).flatten.length := by
    have := congrArg (fun l => (l.map Prod.snd).sum) h
    simp only [List.map_map] at this
    rwa [List.length_flatten, List.length_flatten, List.map_map, List.map_map]
  cases ps with
  | nil => cases qs with
    | nil => rfl
    | cons q qs => exact nomatch h
  | cons p ps => cases qs with
    | nil => exact nomatch h
    | cons q qs => simp only [enclose?, Option.map_some, outline, htexts, hcounts]

namespace Rule
variable {ops : Operators} (hops : ops.OfForms) (token : String)
include hops

theorem outline_renderCondition? {c d : Condition} (h : c.Alike d) (n : Nat) :
    (renderCondition? (ops.emit token) n c).map Query.outline =
      (renderCondition? (ops.emit token) n d).map Query.outline := by
  obtain ⟨f, hf, he, -⟩ := Operators.emit_cases hops token n c
  have hd : ops.emit token n d = f.emitter.emit token n d := by
    rw [Operators.emit, ← Operators.find_operatorCode_congr h.2, hf]
  rw [renderCondition?_eq hops, renderCondition?_eq hops, ← h.isUsable, he, hd]
  cases c.isUsable with
  | false => rfl
  | true =>
    have hcount : (f.emitter.emit token n c).values.length =
        (f.emitter.emit token n d).values.length := by
      rw [f.values_emit, f.values_emit]
      cases f.binds <;> rfl
    exact congrArg some (Prod.ext (f.text_emit_congr token n h.1) hcount)

mutual

/-- two runs over trees that match leave out the same rules and number the others alike -/
theorem outline_render? : ∀ {r s : Rule}, Matches Condition.Alike Eq r s → ∀ n : Nat,
    (render? (ops.emit token) n r).map Query.outline =
      (render? (ops.emit token) n s).map Query.outline
  | .condition _, .condition _, h, n => outline_renderCondition? hops token h n
  | .group j ms _, .group k ns _, h, n => by
    rw [render?, render?, ← h.1]
    exact Query.outline_enclose? j (outline_renderAll h.2 n)
  | .condition _, .group _ _ _, h, _ => h.elim
  | .group _ _ _, .condition _, h, _ => h.elim

theorem outline_renderAll : ∀ {rs ss : List Rule}, AllMatch Condition.Alike Eq rs ss → ∀ n : Nat,
    (renderAll (ops.emit token) n rs).map Query.outline =
      (renderAll (ops.emit token) n ss).map Query.outline
  | [], [], _, _ => rfl
  | r :: rs, s :: ss, h, n => by
    have hr := outline_render? h.1 n
    rw [renderAll, renderAll]
    cases hp : render? (ops.emit token) n r with
    | none =>
      cases hq : render? (ops.emit token) n s with
      | none => exact outline_renderAll h.2 n
      | some q => rw [hp, hq] at hr; exact nomatch hr
    | some p =>
      cases hq : render? (ops.emit token) n s with
      | none => rw [hp, hq] at hr; exact nomatch hr
      | some q =>
        rw [hp, hq] at hr
        have hout : p.outline = q.outline := Option.some.inj hr
        have hcount : p.values.length = q.values.length := congrArg Prod.snd hout
        simp only [List.map_cons, hout, hcount]
        rw [outline_renderAll h.2]
  | [], _ :: _, h, _ => h.elim
  | _ :: _, [], h, _ => h.elim

end

theorem text_query_congr {r s : Rule} (h : Matches Condition.Alike Eq r s) :
    (r.query ops token).text = (s.query ops token).text := by
  have hout := outline_render? hops token h 0
  rw [query_eq_render hops, query_eq_render hops]
  cases hp : render? (ops.emit token) 0 r with
  | none =>
    cases hq : render? (ops.emit token) 0 s with
    | none => rfl
    | some q => rw [hp, hq] at hout; exact nomatch hout
  | some p =>
    cases hq : render? (ops.emit token) 0 s with
    | none => rw [hp, hq] at hout; exact nomatch hout
    | some q =>
      rw [hp, hq] at hout
      exact congrArg Prod.fst (Option.some.inj hout)

/-! ## two trees -/

/-- two trees that bind at the same places bind there what stands there -/
theorem values_query_zip {P : Condition → Condition → Prop} {J : Join → Join → Prop} {r s : Rule}
    (h : Matches P J r s) (hP : ∀ c d, P c d → ops.binds c = ops.binds d) (token' : String) :
    let bound := (r.conditions.zip s.conditions).filter fun p => ops.binds p.1
    (r.query ops token).values = bound.map (fun p => p.1.value) ∧
      (s.query ops token').values = bound.map (fun p => p.2.value) := by
  intro bound
  obtain ⟨hlen, hzip⟩ := List.forall₂_iff_zip.mp h.conditions
  have hsame : bound = (r.conditions.zip s.conditions).filter fun p => ops.binds p.2 :=
    List.filter_congr fun p hp => hP p.1 p.2 (hzip hp)
  constructor
  · rw [values_query hops]
    conv_lhs => rw [← List.map_fst_zip hlen.le]
    rw [List.filter_map, List.map_map]
    rfl
  · rw [values_query hops, hsame]
    conv_lhs => rw [← List.map_snd_zip hlen.ge]
    rw [List.filter_map, List.map_map]
    rfl

end Rule

/-- **Values do not show in the text, and texts do not show in the values.**  Trees that differ in
values, tags and spellings of operators have the same text, and bind the values that stand at the
same places of the two.  Trees that differ in joins, tags and fields, but not in which fields are
blank, bind the same values whatever the tokens are, and both have a text or neither. -/
theorem Rule.query_separated {ops : Operators} (hops : ops.OfForms) :
    (∀ (token : String) (r s : Rule), Matches Condition.Alike Eq r s →
      (r.query ops token).text = (s.query ops token).text ∧
      (r.query ops token).values.length = (s.query ops token).values.length ∧
      r.conditions.length = s.conditions.length ∧
      ∃ bound : List (Condition × Condition), bound.Sublist (r.conditions.zip s.conditions) ∧
        (r.query ops token).values = bound.map (fun p => p.1.value) ∧
        (s.query ops token).values = bound.map (fun p => p.2.value)) ∧
    (∀ (token token' : String) (r s : Rule), Matches Condition.BindsAlike (fun _ _ => True) r s →
      (r.query ops token).values = (s.query ops token').values ∧
      ((r.query ops token).text = "" ↔ (s.query ops token').text = "")) := by
  constructor
  · intro token r s h
    obtain ⟨hr, hs⟩ := values_query_zip hops token h
      (fun c d hcd => Operators.binds_congr hops hcd.isUsable hcd.2) token
    refine ⟨text_query_congr hops token h, ?_, h.conditions.length_eq, _, List.filter_sublist, hr,
      hs⟩
    rw [hr, hs, List.length_map, List.length_map]
  · intro token token' r s h
    obtain ⟨hr, hs⟩ := values_query_zip hops token h
      (fun c d hcd => Operators.binds_congr hops hcd.1 hcd.2.1) token'
    obtain ⟨-, hzip⟩ := List.forall₂_iff_zip.mp h.conditions
    constructor
    · rw [hr, hs]
      apply List.map_congr_left
      intro p hp
      exact (hzip (List.mem_of_mem_filter hp)).2.2
    · rw [← Query.isEmpty_iff, ← Query.isEmpty_iff, isEmpty_query hops, isEmpty_query hops,
        h.isValid fun c d hcd => hcd.1]

/-- a value that reads like a condition, an operator in another spelling, and a test for null, which
binds nothing; then the same values under other fields, joins and tokens -/
theorem Rule.query_separated_quoted :
    let v : Scalar := .text "@1 or (A == A)"
    let r : Rule := .group .and [.condition ⟨"A", " EQUAL ", v, some "x"⟩,
      .group .or [.condition ⟨"", "contains", .bool true, none⟩,
        .condition ⟨"B", "is-null", v, none⟩, .condition ⟨"C", "contains", v, none⟩] none] none
    let s : Rule := .group .and [.condition ⟨"A", "", .null, none⟩,
      .group .or [.condition ⟨"", "Contains", .null, none⟩,
        .condition ⟨"B", "Is-Null", .null, none⟩,
        .condition ⟨"C", "contains ", .bool false, none⟩] (some "y")] none
    let s' : Rule := .group .or [.condition ⟨"or", "", v, none⟩,
      .group .and [.condition ⟨" ", "contains", .bool true, none⟩,
        .condition ⟨"NULL", "is-null", v, none⟩, .condition ⟨"x)", "contains", v, none⟩] none] none
    (r.query .builtin "t").text = (s.query .builtin "t").text ∧
      (r.query .builtin "t").values = [v, v] ∧
      (s.query .builtin "t").values = [.null, .bool false] ∧
      (r.query .builtin "t").values = (s'.query .builtin "u").values ∧
      (s'.query .builtin "u").text ≠ "" := by
  intro v r s s'
  have hops : Operators.builtin.OfForms := Operators.ofForms_builtin
  have hrs : Matches Condition.Alike Eq r s :=
    ⟨rfl, ⟨rfl, by decide +kernel⟩, ⟨rfl, ⟨rfl, by decide +kernel⟩, ⟨rfl, by decide +kernel⟩,
      ⟨rfl, by decide +kernel⟩, trivial⟩, trivial⟩
  have hrs' : Matches Condition.BindsAlike (fun _ _ => True) r s' :=
    ⟨trivial, ⟨by decide, by decide +kernel, rfl⟩, ⟨trivial, ⟨by decide, rfl, rfl⟩,
      ⟨by decide, rfl, rfl⟩, ⟨by decide, rfl, rfl⟩, trivial⟩, trivial⟩
  have hsame := (query_separated hops).1 "t" r s hrs
  have hbound := (query_separated hops).2 "t" "u" r s' hrs'
  exact ⟨hsame.1, by decide +kernel, by decide +kernel, hbound.1,
    fun h => absurd (hbound.2.mpr h) (by decide +kernel)⟩

end SavedFilter
