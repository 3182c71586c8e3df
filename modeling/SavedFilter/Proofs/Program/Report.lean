import Mathlib.Data.List.Forall2
import SavedFilter.Proofs.Json.Lines
import SavedFilter.Proofs.Json.Nesting
import SavedFilter.Proofs.Program.Runs
import SavedFilter.Proofs.Scalar.RoundTrip
import SavedFilter.Query.Workbench

/-!
# Reports that are read back

What is printed of a compiled document is JSON again, and holds the query as it was built:

* `Query.mapM_ofEnvelope`     the values of a query are read back from their envelopes;
* `Report.parseText_text`     a report is read back from its text, in either layout;
* `Program.report_read_back`  so the output of a run holds the query, value by value.
-/

namespace SavedFilter

namespace Query
variable (q : Query)

theorem writable_valuesJson : q.valuesJson.Writable := by
  apply Json.allWritable_iff.mpr
  intro v hv
  obtain ⟨w, -, rfl⟩ := List.mem_map.mp hv
  exact w.writable_envelope

theorem nesting_valuesJson : q.valuesJson.nesting ≤ 2 := by
  apply Nat.succ_le_succ
  apply Json.nestingOfAll_le_iff.mpr
  intro v hv
  obtain ⟨w, -, rfl⟩ := List.mem_map.mp hv
  exact w.nesting_envelope

theorem mapM_ofEnvelope :
    (q.values.map Scalar.envelope).mapM Scalar.ofEnvelope =
      .ok (q.values.map Scalar.canonical) := by
  induction q.values with
  | nil => rfl
  | cons v vs ih =>
    rw [List.map_cons, List.mapM_cons, v.ofEnvelope_envelope, ih]
    rfl

theorem forall₂_isCopy : List.Forall₂ Scalar.IsCopy q.values (q.values.map Scalar.canonical) := by
  induction q.values with
  | nil => exact .nil
  | cons v vs ih => exact .cons v.isCopy_canonical ih

end Query

/-! ## the text of a report -/

namespace Report
variable (r : Report)

theorem writable_toJson : r.toJson.Writable := by
  have hkeys : ["expression", "parameters", "valid"].Nodup := by decide
  exact ⟨hkeys, trivial, r.query.writable_valuesJson, trivial, trivial⟩

theorem nesting_toJson : r.toJson.nesting ≤ 3 := by
  have hvalues := r.query.nesting_valuesJson
  show max 0 (max r.query.valuesJson.nesting (max 0 0)) + 1 ≤ 3
  omega

/-- a report on lines of its own is read as its JSON -/
theorem parseText_text (pretty : Bool) :
    Json.parseText (r.text pretty ++ "\n") = .ok r.toJson := by
  have hn : r.toJson.nesting ≤ Json.maxNesting := r.nesting_toJson.trans (by decide)
  have hgap : ∀ c ∈ "\n".toList, Json.Reader.isSpace c = true := List.forall_mem_singleton.mpr rfl
  cases pretty with
  | true => exact Json.parseText_prettyText_append r.writable_toJson hn hgap
  | false => exact Json.parseText_compactText_append r.writable_toJson hn hgap

end Report

namespace Program
open CommandLine

/-- **A report carries the query that was compiled.**  The run of a document that is loaded writes
one JSON object and the end of its line; the compact layout has no other line break.  Read again,
in either layout, the object has three members: the text that a builder with the token of the
settings gives for the document, its values, and whether the document is valid.  What the envelopes
of the values are read as are copies of all values that the builder has bound, in order: of the same
kind, with the same bits, mantissa and scale, or date, time and offset. -/
theorem report_read_back {files : Files} {env : Environment} {args : List String} {i : Invocation}
    {s : Settings} {ws : List Warning} {path t : String} {flag : Bool} {g : Group}
    (hi : parse env args = .ok i) (hs : Settings.load files (request i) = .ok (s, ws))
    (ht : (files path).text? = some t) (hg : Document.load t = .ok g)
    (hc : i.command = .compile path flag) :
    let built := ((Builder.new s.token).buildGroup .builtin g).output
    let report := Report.ofGroup .builtin s.token g
    run files env args = ⟨0, report.text s.pretty ++ "\n", none, ws⟩ ∧
    '\n' ∉ (report.text false).toList ∧
    ∃ parameters values,
      (∀ pretty, Json.parseText (report.text pretty ++ "\n") =
        .ok (.obj [("expression", .str built.text), ("parameters", .arr parameters),
          ("valid", .bool g.isValid)])) ∧
      parameters.mapM Scalar.ofEnvelope = .ok values ∧
      List.Forall₂ Scalar.IsCopy built.values values := by
  intro built report
  exact ⟨run_compile hi hs ht hg hc, Json.newline_not_mem_compactText report.toJson, _, _,
    report.parseText_text, built.mapM_ofEnvelope, built.forall₂_isCopy⟩

/-- a quote and a line break in a field, a NaN and a decimal, on several lines -/
theorem report_read_back_pretty :
    let files : Files := fun path =>
      if path = "sieve.json" then
        .content ("\x7b\"compiler\":[\"x\"],\"output\":[true]\x7d").toUTF8
      else
        .content ("[\"or\",[[\"filter\",\"\\\"\\n\",\"equal\",[\"double\",\"NaN\"]]," ++
          "[\"filter\",\"B\",\"contains\",[\"decimal\",\"-1.50\"]]]]").toUTF8
    let expression := "(\"\n == @0 or B.Contains(@1, x))"
    ∃ report parameters values,
      run files ⟨none, none⟩ ["compile", "f"] = ⟨0, report ++ "\n", none, []⟩ ∧
      Json.parseText (report ++ "\n") = .ok (.obj [("expression", .str expression),
        ("parameters", .arr parameters), ("valid", .bool true)]) ∧
      parameters.mapM Scalar.ofEnvelope = .ok values ∧ values.length = 2 := by
  intro files expression
  have hload : Settings.load files ⟨none, none, false⟩ = .ok (⟨"x", true⟩, []) :=
    toOption_eq_some.mp (by decide +kernel)
  have hdoc : ((files "f").text?.bind fun t => (Document.load t).toOption.map fun g =>
      ((g.query .builtin "x").text, (g.query .builtin "x").values.length, g.isValid)) =
        some (expression, 2, true) := by
    decide +kernel
  obtain ⟨t, ht, hdoc⟩ := Option.bind_eq_some_iff.mp hdoc
  obtain ⟨g, hg, hquery⟩ := Option.map_eq_some_iff.mp hdoc
  obtain ⟨htext, hquery⟩ := Prod.mk.inj hquery
  obtain ⟨hlength, hvalid⟩ := Prod.mk.inj hquery
  have hi : parse ⟨none, none⟩ ["compile", "f"] = .ok ⟨.compile "f" false, none, none⟩ := rfl
  obtain ⟨hrun, -, parameters, values, hparse, hvalues, hcopies⟩ :=
    report_read_back hi hload ht (toOption_eq_some.mp hg) rfl
  refine ⟨_, parameters, values, hrun, ?_, hvalues, hcopies.length_eq.symm.trans hlength⟩
  rw [hparse true, hvalid]
  exact congrArg (fun e => Except.ok (Json.obj [("expression", .str e), _, _])) htext

end Program
end SavedFilter
