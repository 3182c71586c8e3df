import SavedFilter.Proofs.Query.Extension
import SavedFilter.Query.Workbench

/-!
# Dead rules

A rule is dead when it is not valid: a condition without a field, or a group in which no condition
is usable.  Dead rules may stand anywhere in a tree, and a query does not show them:

* `Rule.prune?`          a tree without its dead rules, if anything is left of it;
* `Rule.Padded`          two trees that are the same up to dead rules in the second one;
* `padded_of_prune?`     a tree is what is left of it, up to dead rules;
* `isLive_of_prune?`     and in what is left there are none;
* `compose?_of_padded`   dead rules leave every buffer as it is;
* `build_prune?`         so they may be taken out, or others put in.

The emitters may look at all that has been written so far.  What they see at a usable condition is
the same in both runs: a word or a parenthesis in front of a dead rule is gone with it.
-/

set_option linter.unusedSectionVars false

namespace SavedFilter
namespace Rule

mutual

/-- the tree without its dead rules, if anything is left of it -/
def prune? : Rule → Option Rule
  | .condition c => if Text.trim c.field.toList = [] then none else some (.condition c)
  | .group join members tag =>
    if anyValid members then some (.group join (pruneAll members) tag) else none

def pruneAll : List Rule → List Rule
  | [] => []
  | r :: rs =>
    match prune? r with
    | none => pruneAll rs
    | some s => s :: pruneAll rs

end

mutual

/-- no rule of the tree is dead, the tree itself included -/
def IsLive : Rule → Prop
  | .condition c => c.isUsable = true
  | .group _ members _ => anyValid members = true ∧ AllLive members

def AllLive : List Rule → Prop
  | [] => True
  | r :: rs => r.IsLive ∧ AllLive rs

end

mutual

/-- the second tree is the first one with any number of dead rules put into its groups -/
inductive Padded : Rule → Rule → Prop
  | condition (c : Condition) : Padded (.condition c) (.condition c)
  | group {join : Join} {members padded : List Rule} {tag : Option String} :
    AllPadded members padded → Padded (.group join members tag) (.group join padded tag)

inductive AllPadded : List Rule → List Rule → Prop
  | nil : AllPadded [] []
  | keep {r s : Rule} {rs ss : List Rule} : Padded r s → AllPadded rs ss →
    AllPadded (r :: rs) (s :: ss)
  | pad {d : Rule} {rs ss : List Rule} : d.isValid = false → AllPadded rs ss →
    AllPadded rs (d :: ss)

end

/-! ## padded trees -/

mutual

theorem Padded.isValid : ∀ {r s : Rule}, Padded r s → s.isValid = r.isValid
  | _, _, .condition _ => rfl
  | _, _, .group h => AllPadded.anyValid h

theorem AllPadded.anyValid : ∀ {rs ss : List Rule}, AllPadded rs ss →
    Rule.anyValid ss = Rule.anyValid rs
  | _, _, .nil => rfl
  | _, _, .keep hr hrs => by
    rw [anyValid_cons, anyValid_cons, Padded.isValid hr, AllPadded.anyValid hrs]
  | _, _, .pad hd hrs => by
    rw [anyValid_cons, hd, Bool.false_or, AllPadded.anyValid hrs]

end

section
variable {ops : Operators}

mutual

/-- **Dead rules leave every buffer as it is**: the emitters are asked for the same conditions, and
each of them sees the same buffer. -/
theorem compose?_of_padded : ∀ {r s : Rule}, Padded r s → ∀ b : Buffer,
    s.compose? ops b = r.compose? ops b
  | _, _, .condition _, _ => rfl
  | _, _, .group h, b => by
    rw [compose?, compose?, composeAll?_of_allPadded h]

theorem composeAll?_of_allPadded {join : Join} : ∀ {rs ss : List Rule}, AllPadded rs ss →
    ∀ (b : Buffer) (started : Bool),
    composeAll? ops join b started ss = composeAll? ops join b started rs
  | _, _, .nil, _, _ => rfl
  | _, _, .keep (r := r) hr hrs, b, started => by
    rw [composeAll?, composeAll?, compose?_of_padded hr]
    cases r.compose? ops (if started then b.write (separator join) else b) with
    | none => exact composeAll?_of_allPadded hrs b started
    | some next => exact composeAll?_of_allPadded hrs next true
  | _, _, .pad hd hrs, b, started => by
    rw [composeAll?, compose?_eq_none _ _ hd]
    exact composeAll?_of_allPadded hrs b started

end

end

/-! ## what is left of a tree -/

theorem prune?_eq_none_iff (r : Rule) : r.prune? = none ↔ r.isValid = false := by
  cases r with
  | condition c =>
    rw [isValid, ← Bool.not_eq_true, Condition.isUsable_iff, prune?]
    split_ifs with h <;> simp [h]
  | group join members tag =>
    rw [isValid, prune?]
    cases anyValid members <;> simp

mutual

/-- only dead rules have been taken out -/
theorem padded_of_prune? : ∀ {r s : Rule}, r.prune? = some s → Padded s r
  | .condition c, s, h => by
    rw [prune?] at h
    split_ifs at h
    rw [← Option.some.inj h]
    exact .condition c
  | .group join members tag, s, h => by
    rw [prune?] at h
    split_ifs at h
    rw [← Option.some.inj h]
    exact .group (allPadded_pruneAll members)

theorem allPadded_pruneAll : ∀ rs : List Rule, AllPadded (pruneAll rs) rs
  | [] => .nil
  | r :: rs => by
    rw [pruneAll]
    cases hr : r.prune? with
    | none => exact .pad ((prune?_eq_none_iff r).mp hr) (allPadded_pruneAll rs)
    | some s => exact .keep (padded_of_prune? hr) (allPadded_pruneAll rs)

end

mutual

/-- and no dead rule has been left -/
theorem isLive_of_prune? : ∀ {r s : Rule}, r.prune? = some s → s.IsLive
  | .condition c, s, h => by
    rw [prune?] at h
    split_ifs at h with hc
    rw [← Option.some.inj h]
    exact c.isUsable_iff.mpr hc
  | .group join members tag, s, h => by
    rw [prune?] at h
    split_ifs at h with hv
    rw [← Option.some.inj h]
    exact ⟨(allPadded_pruneAll members).anyValid.symm.trans hv, allLive_pruneAll members⟩

theorem allLive_pruneAll : ∀ rs : List Rule, AllLive (pruneAll rs)
  | [] => trivial
  | r :: rs => by
    rw [pruneAll]
    cases hr : r.prune? with
    | none => exact allLive_pruneAll rs
    | some s => exact ⟨isLive_of_prune? hr, allLive_pruneAll rs⟩

end

end Rule

/-! ## builders -/

namespace Builder
variable (ops : Operators) (b : Builder)

theorem visit_congr {r s : Rule} (h : ∀ held : Buffer, s.compose? ops held = r.compose? ops held) :
    b.visit ops s = b.visit ops r := by
  rw [visit, visit, h]

theorem build_of_padded {r s : Rule} (h : r.Padded s) :
    b.build ops (some s) = b.build ops (some r) :=
  b.reset.visit_congr ops (Rule.compose?_of_padded h)

theorem build_prune?_eq (r : Rule) : b.build ops r.prune? = b.build ops (some r) := by
  cases hr : r.prune? with
  | none =>
    have hnone : r.compose? ops ⟨b.reset.output, b.token⟩ = none :=
      Rule.compose?_eq_none r _ ((Rule.prune?_eq_none_iff r).mp hr)
    show b.reset = b.reset.visit ops r
    rw [visit, show b.reset.token = b.token from rfl, hnone]
    rfl
  | some s => exact (b.build_of_padded ops (Rule.padded_of_prune? hr)).symm

/-- **Dead rules are invisible.**  A tree without them has the same query, and so has a tree with
any more of them in its groups, whatever the emitters are and whatever they look at.  Nothing is
left of a tree just when it is dead itself; what is left of any other one has no dead rule in it,
and the tree is that with dead rules put in. -/
theorem build_prune? :
    (∀ r : Rule, b.build ops r.prune? = b.build ops (some r)) ∧
    (∀ r s : Rule, r.Padded s → b.build ops (some s) = b.build ops (some r)) ∧
    ∀ r : Rule, (r.prune? = none ↔ r.isValid = false) ∧
      ∀ s, r.prune? = some s → s.IsLive ∧ s.Padded r :=
  ⟨b.build_prune?_eq ops, fun _ _ h => b.build_of_padded ops h,
    fun r => ⟨r.prune?_eq_none_iff, fun _ h =>
      ⟨Rule.isLive_of_prune? h, Rule.padded_of_prune? h⟩⟩⟩

/-- an emitter that repeats the text so far, with dead rules in front of it, between two of its
conditions and behind one -/
theorem build_prune?_echo :
    let ops := Operators.builtin.insert "echo" fun _ b => ⟨"<" ++ b.query.text ++ ">", [.null]⟩
    let live : Rule := .condition ⟨"A", "echo", .null, none⟩
    let dead : Rule := .condition ⟨"\u2003", "echo", .null, some "x"⟩
    let r : Rule := .group .or [dead, .group .and [dead, live, .group .or [] none] none,
      .group .and [dead, dead] none, live] (some "y")
    let s : Rule := .group .or [.group .and [live] none, live] (some "y")
    let b : Builder := ⟨"t", ⟨"(B", [.null]⟩⟩
    (r.prune? = some s ∧ s.IsLive ∧ s.Padded r) ∧ b.build ops (some r) = b.build ops (some s) ∧
      (b.build ops (some s)).output = ⟨"((<((>) or <((<((>) or >)", [.null, .null]⟩ ∧
      (dead.prune? = none ∧ b.build ops none = b.build ops (some dead)) := by
  intro ops live dead r s b
  obtain ⟨hprune, hpadded, hrest⟩ := b.build_prune? ops
  have hs : r.prune? = some s := rfl
  obtain ⟨hlive, hsr⟩ := (hrest r).2 s hs
  exact ⟨⟨hs, hlive, hsr⟩, hpadded s r hsr, by decide +kernel,
    (hrest dead).1.mpr (by decide), hprune dead⟩

end Builder
end SavedFilter
