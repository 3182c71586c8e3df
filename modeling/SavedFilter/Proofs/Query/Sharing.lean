import SavedFilter.Proofs.Query.Entries
import SavedFilter.Query.Workbench

/-!
# Builders on one workbench

A run of a workbench mixes the steps of all its builders with new entries of the shared table.
What a builder holds does not show this:

* `builders_step`    a step is felt by the builder it is about, and by no other one;
* `operators_run`    the table holds the entries of the steps, in their order;
* `Step.apply_eq`    a build starts from nothing, as that of a new builder does;
* `builders_run`     so a builder holds what a new one with its token gives for the last step about
                     it, under the table of that moment.
-/

namespace SavedFilter

theorem Builder.token_build (ops : Operators) (b : Builder) (r : Option Rule) :
    (b.build ops r).token = b.token := by
  cases r <;> rfl

namespace Workbench
namespace Step

/-- the builder that a step is about -/
def index? : Step → Option Nat
  | .build i _ | .buildGroup i _ | .reset i => some i
  | .register _ _ => none

/-- the entry that a step makes -/
def entry? : Step → Option (String × Emitter)
  | .register code e => some (code, e)
  | .build _ _ | .buildGroup _ _ | .reset _ => none

/-- what a step makes of the builder it is about -/
def apply (ops : Operators) (b : Builder) : Step → Builder
  | .build _ r => b.build ops r
  | .buildGroup _ g => b.buildGroup ops g
  | .reset _ => b.reset
  | .register _ _ => b

/-- what a new builder holds after a step about it -/
def fresh (ops : Operators) (token : String) : Step → Builder
  | .build _ r => (Builder.new token).build ops r
  | .buildGroup _ g => (Builder.new token).buildGroup ops g
  | .reset _ => .new token
  | .register _ _ => .new token

theorem token_apply (ops : Operators) (b : Builder) (s : Step) :
    (s.apply ops b).token = b.token := by
  cases s with
  | build i r => exact b.token_build ops r
  | buildGroup i g => rfl
  | reset i => rfl
  | register code e => rfl

/-- what the builder held before leaves no trace -/
theorem apply_eq {s : Step} {i : Nat} (h : s.index? = some i) (ops : Operators) (b : Builder) :
    s.apply ops b = s.fresh ops b.token := by
  cases s with
  | build j r => cases r <;> rfl
  | buildGroup j g => rfl
  | reset j => rfl
  | register code e => exact nomatch h

end Step

/-! ## one step -/

section
variable (w : Workbench)

theorem operators_step (s : Step) :
    (w.step s).operators = w.operators.insertAll s.entry?.toList := by
  cases s <;> rfl

theorem builders_step (s : Step) (i : Nat) :
    (w.step s).builders[i]? =
      w.builders[i]?.map fun b => if s.index? = some i then s.apply w.operators b else b := by
  have hmodify : ∀ (j : Nat) (f : Builder → Builder), (w.builders.modify j f)[i]? =
      w.builders[i]?.map fun b => if some j = some i then f b else b := by
    intro j f
    simp only [List.getElem?_modify, Option.some.injEq]
    by_cases hj : j = i <;> simp [hj]
  cases s with
  | build j r => exact hmodify j _
  | buildGroup j g => exact hmodify j _
  | reset j => exact hmodify j _
  | register code e => exact Option.map_id'.symm

/-- no step takes a builder away, adds one or changes a token -/
theorem tokens_step (s : Step) :
    (w.step s).builders.map Builder.token = w.builders.map Builder.token := by
  apply List.ext_getElem?
  intro i
  rw [List.getElem?_map, List.getElem?_map, w.builders_step s i, Option.map_map]
  congr 1
  funext b
  show Builder.token (if s.index? = some i then s.apply w.operators b else b) = b.token
  split_ifs
  · exact s.token_apply w.operators b
  · rfl

end

/-! ## runs -/

section
variable (w : Workbench)

theorem run_append (steps more : List Step) : w.run (steps ++ more) = (w.run steps).run more := by
  simp only [run, List.foldl_append]

theorem operators_run (steps : List Step) :
    (w.run steps).operators = w.operators.insertAll (steps.filterMap Step.entry?) := by
  induction steps generalizing w with
  | nil => rfl
  | cons s steps ih =>
    rw [run_cons, ih, operators_step, ← Operators.insertAll_append, List.filterMap_cons]
    cases s.entry? <;> rfl

theorem tokens_run (steps : List Step) :
    (w.run steps).builders.map Builder.token = w.builders.map Builder.token := by
  induction steps generalizing w with
  | nil => rfl
  | cons s steps ih => rw [run_cons, ih, tokens_step]

/-- steps about other builders, and new entries, change nothing -/
theorem builders_run_frame {steps : List Step} {i : Nat} (h : ∀ s ∈ steps, s.index? ≠ some i) :
    (w.run steps).builders[i]? = w.builders[i]? := by
  induction steps generalizing w with
  | nil => rfl
  | cons s steps ih =>
    have hs : s.index? ≠ some i := h s List.mem_cons_self
    rw [run_cons, ih (w.step s) fun t ht => h t (List.mem_cons_of_mem s ht), builders_step]
    simp only [if_neg hs, Option.map_id']

/-- the last step about a builder decides what it holds -/
theorem builders_run_last {before after : List Step} {s : Step} {i : Nat} (hs : s.index? = some i)
    (h : ∀ t ∈ after, t.index? ≠ some i) :
    (w.run (before ++ s :: after)).builders[i]? =
      (w.builders.map Builder.token)[i]?.map
        (s.fresh (w.operators.insertAll (before.filterMap Step.entry?))) := by
  rw [run_append, run_cons, builders_run_frame _ h, builders_step, operators_run,
    ← w.tokens_run before, List.getElem?_map, Option.map_map]
  congr 1
  funext b
  rw [if_pos hs]
  exact Step.apply_eq hs _ b

end

/-- **A builder holds what a new one with its token gives for its last build**, under the table as
it was then, or nothing if it has been reset since or has never built.  The run starts with new
builders, and its steps may come in any order. -/
theorem builders_run (ops : Operators) (tokens : List String) (steps : List Step) :
    let start : Workbench := ⟨ops, tokens.map Builder.new⟩
    (start.run steps).operators = ops.insertAll (steps.filterMap Step.entry?) ∧
    (start.run steps).builders.map Builder.token = tokens ∧
    ∀ (i : Nat) (token : String), tokens[i]? = some token →
      ((∀ s ∈ steps, s.index? ≠ some i) →
        (start.run steps).builders[i]? = some (.new token)) ∧
      (∀ before s after, steps = before ++ s :: after → s.index? = some i →
        (∀ t ∈ after, t.index? ≠ some i) →
        (start.run steps).builders[i]? =
          some (s.fresh (ops.insertAll (before.filterMap Step.entry?)) token)) := by
  intro start
  have htokens : start.builders.map Builder.token = tokens := by
    show (tokens.map Builder.new).map Builder.token = tokens
    rw [List.map_map]
    exact List.map_id tokens
  refine ⟨start.operators_run steps, (start.tokens_run steps).trans htokens, ?_⟩
  intro i token hi
  constructor
  · intro h
    rw [builders_run_frame start h]
    show (tokens.map Builder.new)[i]? = _
    rw [List.getElem?_map, hi]
    rfl
  · rintro before s after rfl hs h
    rw [builders_run_last start hs h, htokens, hi]
    rfl

/-- two builders, an operator that is entered between two builds and replaced after them -/
theorem builders_run_two :
    let r : Rule := .condition ⟨"A", " Like ", .bool true, none⟩
    let steps : List Step := [.build 0 (some r), .buildGroup 1 ⟨.or, [r, r], none⟩,
      .register "LIKE" (.comparison "~"), .build 0 (some r), .reset 1, .build 5 none,
      .register "like" (.nullTest "!=")]
    let w := (Workbench.mk .builtin (["t", "u", "v"].map Builder.new)).run steps
    w.builders = [⟨"t", ⟨"A ~ @0", [.bool true]⟩⟩, .new "u", .new "v"] := by
  intro r steps w
  have hrun := builders_run .builtin ["t", "u", "v"] steps
  have h0 : w.builders[0]? = some ⟨"t", ⟨"A ~ @0", [.bool true]⟩⟩ :=
    ((hrun.2.2 0 "t" rfl).2 (steps.take 3) (.build 0 (some r)) (steps.drop 4) rfl rfl
      (by decide)).trans (by decide +kernel)
  have h1 : w.builders[1]? = some (.new "u") :=
    (hrun.2.2 1 "u" rfl).2 (steps.take 4) (.reset 1) (steps.drop 5) rfl rfl (by decide)
  have h2 : w.builders[2]? = some (.new "v") := (hrun.2.2 2 "v" rfl).1 (by decide)
  have hlen : w.builders.length = 3 := by
    have htokens := congrArg List.length hrun.2.1
    rwa [List.length_map] at htokens
  apply List.ext_getElem?
  intro i
  match i with
  | 0 => exact h0
  | 1 => exact h1
  | 2 => exact h2
  | i + 3 => exact List.getElem?_eq_none (by omega)

end Workbench
end SavedFilter
