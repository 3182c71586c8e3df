import SavedFilter.Program
import SavedFilter.Proofs.Except
import SavedFilter.Proofs.Query.Codes

/-!
# Runs of the program

A run loads its settings first, then the document that its command is about, and then it writes.

* `exists_loadDocument_eq_error_iff`   what is found at the path is no text, or one not loaded;
* `exists_execute_eq_error_iff`   a command fails just when its document cannot be loaded;
* `listing_newline`               the operators are written one to a line;
* `run_of_error`, `run_of_execute_error`, `run_of_execute_ok`   a run by what its steps give;
* `run_check`, `run_compile`, `run_operators`   the run of each command when nothing is at fault.
-/

namespace SavedFilter

/-- the document that a command is about -/
def CommandLine.Command.document? : CommandLine.Command → Option String
  | .check file | .compile file _ => some file
  | .operators => none

namespace Program
open CommandLine

/-- what is found at the path is no text, or a text that is not loaded -/
def Unloadable (files : Files) (path : String) : Prop :=
  (files path).text? = none ∨ ∃ t f, (files path).text? = some t ∧ Document.load t = .error f

section
variable {files : Files} {path : String}

theorem loadDocument_eq_ok_iff {g : Group} :
    loadDocument files path = .ok g ↔
      ∃ t, (files path).text? = some t ∧ Document.load t = .ok g := by
  unfold loadDocument
  cases (files path).text? with
  | none => exact ⟨fun h => (nomatch h), fun ⟨_, ht, _⟩ => nomatch ht⟩
  | some t =>
    refine mapError_eq_ok.trans ⟨fun h => ⟨t, rfl, h⟩, ?_⟩
    rintro ⟨u, hu, h⟩
    rwa [Option.some.inj hu]

theorem exists_loadDocument_eq_error_iff :
    (∃ f, loadDocument files path = .error f) ↔ Unloadable files path := by
  unfold loadDocument Unloadable
  cases (files path).text? with
  | none => exact ⟨fun _ => .inl rfl, fun _ => ⟨_, rfl⟩⟩
  | some t =>
    constructor
    · rintro ⟨f, h⟩
      obtain ⟨e, he, -⟩ := mapError_eq_error.mp h
      exact .inr ⟨t, e, rfl, he⟩
    · rintro (h | ⟨u, e, hu, he⟩)
      · exact nomatch h
      · obtain rfl := Option.some.inj hu
        exact ⟨_, mapError_eq_error.mpr ⟨e, he, rfl⟩⟩

end

/-! ## commands -/

section
variable (files : Files) (s : Settings)

/-- a command fails just when its document does -/
theorem exists_execute_eq_error_iff (c : Command) :
    (∃ f, execute files s c = .error f) ↔
      ∃ path, c.document? = some path ∧ Unloadable files path := by
  have hfile : ∀ {α : Type} (path : String) (report : Group → α),
      (∃ f, (loadDocument files path).map report = .error f) ↔
        ∃ p, some path = some p ∧ Unloadable files p := by
    intro α path report
    simp only [map_eq_error, exists_loadDocument_eq_error_iff, Option.some.injEq, exists_eq_left']
  cases c with
  | check path => exact hfile path _
  | compile path flag => exact hfile path _
  | operators => exact ⟨fun ⟨_, h⟩ => (nomatch h), fun ⟨_, h, _⟩ => nomatch h⟩

/-- a command that does its work exits with 0 or 2 -/
theorem ne_one_of_execute {files s} {c : Command} {code : Nat} {line : String}
    (h : execute files s c = .ok (code, line)) : code ≠ 1 := by
  cases c with
  | check path =>
    obtain ⟨g, -, hg⟩ := map_eq_ok.mp h
    rw [← (Prod.mk.inj hg).1, checkCode]
    split_ifs <;> decide
  | compile path flag =>
    obtain ⟨g, -, hg⟩ := map_eq_ok.mp h
    rw [← (Prod.mk.inj hg).1]
    decide
  | operators =>
    rw [← (Prod.mk.inj (Except.ok.inj h)).1]
    decide

end

/-! ## the list of operators -/

theorem listing_newline {ops : Operators} (h : ops.codes ≠ []) :
    ops.listing ++ "\n" = String.join (ops.codes.map (· ++ "\n")) := by
  unfold Operators.listing
  generalize ops.codes = codes at h
  induction codes with
  | nil => exact absurd rfl h
  | cons c cs ih =>
    show _ = String.join ((c ++ "\n") :: cs.map (· ++ "\n"))
    rw [String.join_cons]
    cases cs with
    | nil => rw [String.intercalate_singleton, List.map_nil, String.join_nil, String.append_empty]
    | cons d ds =>
      rw [String.intercalate_cons_cons, String.append_assoc, ih (List.cons_ne_nil d ds)]

theorem mem_codes_builtin {code : String} :
    code ∈ Operators.builtin.codes ↔ code ∈ Operators.builtinEntries.map Prod.fst := by
  have hnormal : ∀ e ∈ Operators.builtinEntries, Operators.normalForm e.1 = e.1 := by
    decide
  rw [Operators.builtin, Operators.mem_codes_insertAll, or_iff_left Operators.not_mem_codes_empty,
    List.mem_map]
  constructor
  · rintro ⟨e, he, rfl⟩
    exact ⟨e, he, (hnormal e he).symm⟩
  · rintro ⟨e, he, rfl⟩
    exact ⟨e, he, hnormal e he⟩

/-! ## runs -/

section
variable {files : Files} {env : Environment} {args : List String} {i : Invocation}
  (hi : parse env args = .ok i)
include hi

theorem run_of_error {f : Settings.Fault} (hs : Settings.load files (request i) = .error f) :
    run files env args = ⟨1, "", some f.message, []⟩ := by
  simp only [run, hi, runInvocation, hs]

variable {s : Settings} {ws : List Warning} (hs : Settings.load files (request i) = .ok (s, ws))
include hs

theorem run_of_execute_error {f : Failure} (he : execute files s i.command = .error f) :
    run files env args = ⟨1, "", some f.message, ws⟩ := by
  simp only [run, hi, runInvocation, hs, he]

theorem run_of_execute_ok {code : Nat} {line : String}
    (he : execute files s i.command = .ok (code, line)) :
    run files env args = ⟨code, line ++ "\n", none, ws⟩ := by
  simp only [run, hi, runInvocation, hs, he]

section
variable {path t : String} {g : Group} (ht : (files path).text? = some t)
  (hg : Document.load t = .ok g)
include ht hg

theorem run_check (hc : i.command = .check path) :
    run files env args = ⟨checkCode g, checkLine g ++ "\n", none, ws⟩ := by
  apply run_of_execute_ok hi hs
  rw [hc]
  exact map_eq_ok.mpr ⟨g, loadDocument_eq_ok_iff.mpr ⟨t, ht, hg⟩, rfl⟩

theorem run_compile {flag : Bool} (hc : i.command = .compile path flag) :
    run files env args =
      ⟨0, (Report.ofGroup .builtin s.token g).text s.pretty ++ "\n", none, ws⟩ := by
  apply run_of_execute_ok hi hs
  rw [hc]
  exact map_eq_ok.mpr ⟨g, loadDocument_eq_ok_iff.mpr ⟨t, ht, hg⟩, rfl⟩

end

theorem run_operators (hc : i.command = .operators) :
    run files env args =
      ⟨0, String.join (Operators.builtin.codes.map (· ++ "\n")), none, ws⟩ := by
  have hne : Operators.builtin.codes ≠ [] :=
    List.ne_nil_of_mem (mem_codes_builtin.mpr List.mem_cons_self)
  rw [← listing_newline hne]
  apply run_of_execute_ok hi hs
  rw [hc]
  rfl

end

end Program
end SavedFilter
