import SavedFilter.Query.Compose

/-!
# Builders that share their operators

A builder has a token of its own and keeps the query that it built last.  On a workbench any number
of builders share one table of operators; a change of the table shows in what is built after it, and
leaves every query as it is that has been built before.
-/

namespace SavedFilter

structure Builder where
  token : String
  output : Query
  deriving DecidableEq, Repr

namespace Builder

def new (token : String) : Builder := ⟨token, .none⟩

def reset (b : Builder) : Builder := ⟨b.token, .none⟩

/-- the builder with a rule put to the end of what it holds, as far as there is anything to write -/
def visit (ops : Operators) (b : Builder) (r : Rule) : Builder :=
  let held : Buffer := ⟨b.output, b.token⟩
  ⟨b.token, ((r.compose? ops held).getD held).query⟩

/-- the builder with the query of a rule in place of what it held; the absent rule has the empty
query -/
def build (ops : Operators) (b : Builder) : Option Rule → Builder
  | none => b.reset
  | some r => b.reset.visit ops r

def buildGroup (ops : Operators) (b : Builder) (g : Group) : Builder := b.reset.visit ops g.toRule

end Builder

structure Workbench where
  operators : Operators
  builders : List Builder

namespace Workbench

inductive Step where
  | build (index : Nat) (rule : Option Rule)
  | buildGroup (index : Nat) (group : Group)
  | reset (index : Nat)
  | register (code : String) (emitter : Emitter)

def step (w : Workbench) : Step → Workbench
  | .build i r => ⟨w.operators, w.builders.modify i fun b => b.build w.operators r⟩
  | .buildGroup i g => ⟨w.operators, w.builders.modify i fun b => b.buildGroup w.operators g⟩
  | .reset i => ⟨w.operators, w.builders.modify i Builder.reset⟩
  | .register code e => ⟨w.operators.insert code e, w.builders⟩

def run (w : Workbench) (steps : List Step) : Workbench := steps.foldl step w

theorem run_cons (w : Workbench) (s : Step) (steps : List Step) :
    w.run (s :: steps) = (w.step s).run steps := rfl

end Workbench
end SavedFilter
