import SavedFilter.Proofs.Query.Extension

/-!
# Emitters step by step

An emitter adds its query to the buffer at once.  A script does so in steps: it writes texts and
binds values, as many of both and in any order, looks at the buffer in between, and is told the
number under which a value has been bound.

* `Script.run`          the buffer behind a script, and the call: what was written, what was bound;
* `Script.run_eq`       running a script adds a query, and the numbers of its values are those at
                        which the buffer has them;
* `Form.query_script`   the built-in emitters as scripts;
* `Operators.Performs`  scripts for the emitters of a table; `exists_performs` says that every table
                        has them.
-/

namespace SavedFilter

/-- what is left of a script: nothing, or a step and what comes after it -/
inductive Script where
  | stop
  | look (rest : Buffer → Script)
  | write (s : String) (rest : Script)
  /-- the rest knows the number of the value -/
  | bind (v : Scalar) (rest : Nat → Script)

/-- what a script has done: the text that it wrote, and the values that it bound with their
numbers -/
structure Call where
  text : String
  bound : List (Scalar × Nat)
  deriving DecidableEq

namespace Call

def query (c : Call) : Query := ⟨c.text, c.bound.map Prod.fst⟩

def wrote (c : Call) : Bool := !c.text.isEmpty

/-- the values that were bound in calls that wrote a text, with their numbers -/
def kept (calls : List Call) : List (Scalar × Nat) := (calls.filter wrote).flatMap bound

theorem kept_append (calls more : List Call) : kept (calls ++ more) = kept calls ++ kept more := by
  rw [kept, List.filter_append, List.flatMap_append]
  rfl

theorem wrote_iff (c : Call) : c.wrote = true ↔ c.text ≠ "" := by
  rw [wrote, Bool.not_eq_true', ← Bool.not_eq_true, String.isEmpty_iff]

theorem kept_singleton {c : Call} (h : c.wrote = true) : kept [c] = c.bound := by
  rw [kept, List.filter_cons_of_pos h]
  exact List.append_nil _

theorem kept_singleton_of_not {c : Call} (h : c.wrote = false) : kept [c] = [] := by
  rw [kept, List.filter_cons_of_neg (Bool.eq_false_iff.mp h)]
  rfl

theorem mem_kept {calls : List Call} {p : Scalar × Nat} :
    p ∈ kept calls ↔ ∃ c ∈ calls, c.text ≠ "" ∧ p ∈ c.bound := by
  simp only [kept, List.mem_flatMap, List.mem_filter, wrote_iff, and_assoc]

end Call

/-- the values of a buffer, each with its number -/
def Buffer.bindings (b : Buffer) : List (Scalar × Nat) := b.query.values.zipIdx

theorem Buffer.bindings_add (b : Buffer) (q : Query) :
    (b.add q).bindings = b.bindings ++ q.values.zipIdx b.next := by
  show (b.query.values ++ q.values).zipIdx = _
  rw [List.zipIdx_append, Nat.zero_add]
  rfl

theorem Buffer.bindings_write (b : Buffer) (s : String) : (b.write s).bindings = b.bindings := by
  rw [write, bindings_add]
  exact List.append_nil _

namespace Script

def run : Script → Buffer → Buffer × Call
  | .stop, b => (b, ⟨"", []⟩)
  | .look rest, b => (rest b).run b
  | .write s rest, b =>
    let (after, c) := rest.run (b.write s)
    (after, ⟨s ++ c.text, c.bound⟩)
  | .bind v rest, b =>
    let (after, c) := (rest b.next).run (b.bind v)
    (after, ⟨c.text, (v, b.next) :: c.bound⟩)

/-- what a script adds to a buffer -/
def query (s : Script) (b : Buffer) : Query := (s.run b).2.query

theorem query_write (s : String) (rest : Script) (b : Buffer) :
    (write s rest).query b = ⟨s, []⟩ ++ rest.query (b.write s) := rfl

theorem query_bind (v : Scalar) (rest : Nat → Script) (b : Buffer) :
    (bind v rest).query b = ⟨"", [v]⟩ ++ (rest b.next).query (b.bind v) := by
  rw [Query.append_def, String.empty_append]
  rfl

/-- running a script adds its query to the buffer, which has the values at their numbers -/
theorem run_eq (s : Script) (b : Buffer) :
    (s.run b).1 = b.add (s.query b) ∧ (s.run b).2.bound = (s.query b).values.zipIdx b.next := by
  induction s generalizing b with
  | stop => exact ⟨b.add_none.symm, rfl⟩
  | look rest ih => exact ih b b
  | write s rest ih =>
    obtain ⟨hbuffer, hbound⟩ := ih (b.write s)
    have hnext : (b.write s).next = b.next := Buffer.next_add b _
    rw [query_write, ← Buffer.add_add]
    refine ⟨hbuffer, ?_⟩
    rw [← hnext]
    exact hbound
  | bind v rest ih =>
    obtain ⟨hbuffer, hbound⟩ := ih b.next (b.bind v)
    have hnext : (b.bind v).next = b.next + 1 := Buffer.next_add b _
    rw [query_bind, ← Buffer.add_add]
    refine ⟨hbuffer, ?_⟩
    show (v, b.next) :: ((rest b.next).run (b.bind v)).2.bound = _
    rw [hbound, hnext]
    rfl

/-- the script that binds the values -/
def bindAll : List Scalar → Script
  | [] => .stop
  | v :: vs => .bind v fun _ => bindAll vs

theorem query_bindAll (vs : List Scalar) (b : Buffer) : (bindAll vs).query b = ⟨"", vs⟩ := by
  induction vs generalizing b with
  | nil => rfl
  | cons v vs ih =>
    rw [bindAll, query_bind, ih]
    rfl

/-- the script that writes the text of a query and binds its values -/
def ofQuery (q : Query) : Script := .write q.text (bindAll q.values)

theorem query_ofQuery (q : Query) (b : Buffer) : (ofQuery q).query b = q := by
  rw [ofQuery, query_write, query_bindAll, Query.append_def, String.append_empty]
  rfl

end Script

/-! ## the built-in emitters -/

namespace Form
open Emitter

/-- what a built-in emitter does step by step: the value is bound first, and the text shows its
number -/
def script : Form → Condition → Script
  | .comparison symbol, c =>
    .bind c.value fun n => .write (c.field ++ " " ++ symbol ++ " " ++ placeholder n) .stop
  | .nullTest symbol, c => .write (c.field ++ " " ++ symbol ++ " NULL") .stop
  | .call method negated, c =>
    .bind c.value fun n => .look fun b =>
      .write ((if negated then "!" else "") ++ c.field ++ "." ++ method ++ "(" ++ placeholder n ++
        ", " ++ b.token ++ ")") .stop

theorem query_script (f : Form) (c : Condition) (b : Buffer) :
    (f.script c).query b = f.emitter c b := by
  have hwrite : ∀ s b, (Script.write s .stop).query b = ⟨s, []⟩ := by
    intro s b
    rw [Script.query_write]
    exact Query.append_none _
  cases f with
  | comparison symbol =>
    rw [script, Script.query_bind, hwrite, Query.append_def, String.empty_append]
    rfl
  | nullTest symbol => exact hwrite _ b
  | call method negated =>
    rw [script, Script.query_bind]
    show ⟨"", [c.value]⟩ ++ (Script.write _ .stop).query (b.bind c.value) = _
    rw [hwrite, Query.append_def, String.empty_append]
    rfl

end Form

/-! ## scripts for a table of emitters -/

/-- the scripts do what the emitters of the table do, code by code -/
def Operators.Performs (ops : Operators) (writers : String → Condition → Script) : Prop :=
  ∀ code c b, ops.find code c b = (writers code c).query b

namespace Operators
variable {ops : Operators}

theorem performs_empty : empty.Performs fun _ => Form.script (.comparison "==") := by
  intro code c b
  rw [find_empty]
  exact (Form.query_script (.comparison "==") c b).symm

/-- a script that is put into the table comes before those that are there -/
theorem Performs.insert {writers : String → Condition → Script} (h : ops.Performs writers)
    (code : String) (script : Condition → Script) :
    (ops.insert code fun c => (script c).query).Performs fun other =>
      if normalForm code = normalForm other then script else writers other := by
  intro other c b
  show _ = ((if normalForm code = normalForm other then script else writers other) c).query b
  rw [find_insert]
  by_cases hn : normalForm code = normalForm other
  · rw [if_pos hn, if_pos hn]
  · rw [if_neg hn, if_neg hn]
    exact h other c b

/-- every table of emitters has scripts, which look at the buffer first -/
theorem exists_performs (ops : Operators) : ∃ writers, ops.Performs writers := by
  refine ⟨fun code c => .look fun b => .ofQuery (ops.find code c b), fun code c b => ?_⟩
  exact (Script.query_ofQuery _ b).symm

end Operators
end SavedFilter
