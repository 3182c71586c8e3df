import SavedFilter.Proofs.Program.Report
import SavedFilter.Proofs.Program.Verdict
import SavedFilter.Proofs.Query.Codes
import SavedFilter.Proofs.Settings.Precedence

/-!
# What a run ends with

A run writes at its very end, so it fails before it has written anything, or not at all:

* `exit_eq_one_iff`         the runs that exit with 1, which write nothing;
* `run_check_valid_iff`, `run_check_invalid_iff`   what a check says of a document;
* `parseText_run_compile`   a compilation writes one report;
* `run_outcome`             all this together, command by command.
-/

namespace SavedFilter.Program
open CommandLine

/-! ## the runs that fail -/

/-- the settings or the document of a command cannot be loaded -/
def Refused (files : Files) (i : Invocation) : Prop :=
  (∃ f, Settings.load files (request i) = .error f) ∨
    ∃ path, i.command.document? = some path ∧ Unloadable files path

section
variable {files : Files} {env : Environment} {args : List String} {i : Invocation}
  (hi : parse env args = .ok i)
include hi

theorem exists_run_of_refused (h : Refused files i) :
    ∃ message ws, run files env args = ⟨1, "", some message, ws⟩ := by
  cases hs : Settings.load files (request i) with
  | error f => exact ⟨_, _, run_of_error hi hs⟩
  | ok r =>
    obtain ⟨s, ws⟩ := r
    rcases h with ⟨f, hf⟩ | hdoc
    · exact nomatch hs.symm.trans hf
    · obtain ⟨f, hf⟩ := (exists_execute_eq_error_iff files s i.command).mpr hdoc
      exact ⟨_, _, run_of_execute_error hi hs hf⟩

theorem exists_run_of_not_refused (h : ¬ Refused files i) :
    ∃ code line ws, code ≠ 1 ∧ run files env args = ⟨code, line ++ "\n", none, ws⟩ := by
  cases hs : Settings.load files (request i) with
  | error f => exact absurd (.inl ⟨f, hs⟩) h
  | ok r =>
    obtain ⟨s, ws⟩ := r
    cases he : execute files s i.command with
    | error f => exact absurd (.inr ((exists_execute_eq_error_iff files s _).mp ⟨f, he⟩)) h
    | ok r => exact ⟨r.1, r.2, ws, ne_one_of_execute he, run_of_execute_ok hi hs he⟩

theorem exit_eq_one_iff : (run files env args).exit = 1 ↔ Refused files i := by
  constructor
  · intro h
    by_contra hr
    obtain ⟨code, line, ws, hne, hrun⟩ := exists_run_of_not_refused hi hr
    rw [hrun] at h
    exact hne h
  · intro h
    obtain ⟨message, ws, hrun⟩ := exists_run_of_refused hi h
    rw [hrun]

/-! ## the runs that do not -/

variable {s : Settings} {ws : List Warning} (hs : Settings.load files (request i) = .ok (s, ws))
  {path t : String} {g : Group} (ht : (files path).text? = some t) (hg : Document.load t = .ok g)
include hs ht hg

theorem run_check_valid_iff (hc : i.command = .check path) :
    run files env args = ⟨0, "valid\n", none, ws⟩ ↔
      ∃ c ∈ g.toRule.conditions, Text.trim c.field.toList ≠ [] := by
  rw [← Rule.isValid_iff, g.isValid_toRule, run_check hi hs ht hg hc, checkCode, checkLine]
  cases g.isValid with
  | true => exact iff_of_true rfl rfl
  | false =>
    exact iff_of_false (fun h => Nat.succ_ne_zero 1 (Outcome.mk.inj h).1) Bool.false_ne_true

theorem run_check_invalid_iff (hc : i.command = .check path) :
    run files env args = ⟨2, "invalid\n", none, ws⟩ ↔
      ∀ c ∈ g.toRule.conditions, Text.trim c.field.toList = [] := by
  have hvalid := g.toRule.isValid_iff
  rw [g.isValid_toRule] at hvalid
  rw [run_check hi hs ht hg hc, checkCode, checkLine]
  cases h : g.isValid with
  | true =>
    obtain ⟨c, hc, hfield⟩ := hvalid.mp h
    refine iff_of_false (fun h => Nat.succ_ne_zero 1 (Outcome.mk.inj h).1.symm) fun hall => ?_
    exact hfield (hall c hc)
  | false =>
    refine iff_of_true rfl fun c hc => ?_
    by_contra hfield
    rw [hvalid.mpr ⟨c, hc, hfield⟩] at h
    cases h

/-- a compilation writes one object: what a builder gives for the document, and its validity -/
theorem parseText_run_compile {flag : Bool} (hc : i.command = .compile path flag) :
    let built := ((Builder.new s.token).buildGroup .builtin g).output
    Json.parseText (run files env args).output =
      .ok (.obj [("expression", .str built.text),
        ("parameters", .arr (built.values.map Scalar.envelope)), ("valid", .bool g.isValid)]) := by
  intro built
  rw [run_compile hi hs ht hg hc]
  exact (Report.ofGroup .builtin s.token g).parseText_text s.pretty

end

/-- **What a run ends with.**  It exits with 1 just when its settings, or the document that its
command is about, cannot be loaded, and then it has written nothing; a fault of the settings is told
for every command, and whatever any other file holds.  When nothing is at fault, a check tells
whether some condition of the document has a field, by its line and by its exit; a document is
compiled into one report, be it valid or not, and all that is written reads as this one object, with
the expression, the parameters and the validity; and the operators are listed in order, one to a
line. -/
theorem run_outcome {env : Environment} {args : List String} {i : Invocation}
    (hi : parse env args = .ok i) (files : Files) :
    ((run files env args).exit = 1 ↔
      (∃ f, Settings.load files (request i) = .error f) ∨
        ∃ path, i.command.document? = some path ∧ ((files path).text? = none ∨
          ∃ t f, (files path).text? = some t ∧ Document.load t = .error f)) ∧
    ((run files env args).exit = 1 →
      ∃ message ws, run files env args = ⟨1, "", some message, ws⟩) ∧
    (∀ f, Settings.load files (request i) = .error f →
      ∀ files' : Files, files' (request i).path = files (request i).path →
        run files' env args = ⟨1, "", some f.message, []⟩) ∧
    (Operators.builtin.codes.Pairwise (· < ·) ∧
      (∀ code, code ∈ Operators.builtin.codes ↔ code ∈ Operators.builtinEntries.map Prod.fst) ∧
      ∀ code ∈ Operators.builtin.codes, '\n' ∉ code.toList) ∧
    ∀ s ws, Settings.load files (request i) = .ok (s, ws) →
      (i.command = .operators → run files env args =
        ⟨0, String.join (Operators.builtin.codes.map (· ++ "\n")), none, ws⟩) ∧
      ∀ path t g, (files path).text? = some t → Document.load t = .ok g →
        (i.command = .check path →
          (run files env args = ⟨0, "valid\n", none, ws⟩ ↔
            ∃ c ∈ g.toRule.conditions, Text.trim c.field.toList ≠ []) ∧
          (run files env args = ⟨2, "invalid\n", none, ws⟩ ↔
            ∀ c ∈ g.toRule.conditions, Text.trim c.field.toList = [])) ∧
        ∀ flag, i.command = .compile path flag →
          let built := ((Builder.new s.token).buildGroup .builtin g).output
          run files env args =
            ⟨0, (Report.ofGroup .builtin s.token g).text s.pretty ++ "\n", none, ws⟩ ∧
          Json.parseText (run files env args).output =
            .ok (.obj [("expression", .str built.text),
              ("parameters", .arr (built.values.map Scalar.envelope)),
              ("valid", .bool g.isValid)]) := by
  refine ⟨exit_eq_one_iff hi, fun h => exists_run_of_refused hi ((exit_eq_one_iff hi).mp h), ?_,
    ⟨Operators.pairwise_codes _, fun code => mem_codes_builtin, ?_⟩,
    fun s ws hs => ⟨run_operators hi hs, ?_⟩⟩
  · intro f hf files' h
    exact run_of_error hi ((Settings.load_congr h).trans hf)
  · have hline : ∀ code ∈ Operators.builtinEntries.map Prod.fst, '\n' ∉ code.toList := by
      decide +kernel
    exact fun code hcode => hline code (mem_codes_builtin.mp hcode)
  · intro path t g ht hg
    exact ⟨fun hc => ⟨run_check_valid_iff hi hs ht hg hc, run_check_invalid_iff hi hs ht hg hc⟩,
      fun flag hc => ⟨run_compile hi hs ht hg hc, parseText_run_compile hi hs ht hg hc⟩⟩

/-- a blank condition, a document that is no text, and a settings file that is not there -/
theorem run_outcome_each :
    let files : Files := fun path =>
      if path = "blank" then .content "[\"and\",[[\"filter\",\" \"]]]".toUTF8
      else if path = "bytes" then .content ⟨#[0xFF]⟩
      else .missing
    let env : Environment := ⟨none, none⟩
    run files env ["check", "blank"] = ⟨2, "invalid\n", none, []⟩ ∧
    (∃ g, (Report.ofGroup .builtin defaultToken g).valid = false ∧
      run files env ["compile", "blank"] =
        ⟨0, (Report.ofGroup .builtin defaultToken g).text false ++ "\n", none, []⟩) ∧
    Json.parseText (run files env ["compile", "blank"]).output =
      .ok (.obj [("expression", .str ""), ("parameters", .arr []), ("valid", .bool false)]) ∧
    (∃ message ws, run files env ["check", "bytes"] = ⟨1, "", some message, ws⟩) ∧
    run files env ["-cnope", "operators"] =
      ⟨1, "", some "Config file not found: nope", []⟩ ∧
    run files env ["operators"] =
      ⟨0, String.join (Operators.builtin.codes.map (· ++ "\n")), none, []⟩ := by
  intro files env
  have hload : Settings.load files ⟨none, none, false⟩ = .ok (⟨defaultToken, false⟩, []) := rfl
  have hblank : ((files "blank").text?.bind fun t => (Document.load t).toOption.map fun g =>
      (decide (∀ c ∈ g.toRule.conditions, Text.trim c.field.toList = []), g.isValid,
        ((Builder.new defaultToken).buildGroup .builtin g).output)) = some (true, false, .none) := by
    decide +kernel
  obtain ⟨t, ht, hdoc⟩ := Option.bind_eq_some_iff.mp hblank
  obtain ⟨g, hg, hfields⟩ := Option.map_eq_some_iff.mp hdoc
  obtain ⟨hfields, hbuilt⟩ := Prod.mk.inj hfields
  obtain ⟨hvalid, hbuilt⟩ := Prod.mk.inj hbuilt
  have hg := toOption_eq_some.mp hg
  have hcheck : parse env ["check", "blank"] = .ok ⟨.check "blank", none, none⟩ := rfl
  have hcompile : parse env ["compile", "blank"] = .ok ⟨.compile "blank" false, none, none⟩ := rfl
  have hbytes : parse env ["check", "bytes"] = .ok ⟨.check "bytes", none, none⟩ := rfl
  have hnope : parse env ["-cnope", "operators"] = .ok ⟨.operators, some "nope", none⟩ := rfl
  have hoperators : parse env ["operators"] = .ok ⟨.operators, none, none⟩ := rfl
  have hcheck := run_outcome hcheck files
  have hcompile := run_outcome hcompile files
  have hbytes := run_outcome hbytes files
  have hnope := run_outcome hnope files
  have hoperators := run_outcome hoperators files
  obtain ⟨hrun, hread⟩ := ((hcompile.2.2.2.2 _ _ hload).2 _ t g ht hg).2 false rfl
  rw [hbuilt, hvalid] at hread
  refine ⟨?_, ⟨g, hvalid, hrun⟩, hread, ?_, ?_, ?_⟩
  · exact (((hcheck.2.2.2.2 _ _ hload).2 _ t g ht hg).1 rfl).2.mpr (of_decide_eq_true hfields)
  · exact hbytes.2.1 (hbytes.1.mpr (.inr ⟨"bytes", rfl, .inl rfl⟩))
  · exact hnope.2.2.1 (.notFound "nope") rfl files rfl
  · exact (hoperators.2.2.2.2 _ _ hload).1 rfl

end SavedFilter.Program
