import SavedFilter.Program
import SavedFilter.Proofs.Except
import SavedFilter.Proofs.Query.Separation
import SavedFilter.Query.Workbench

/-!
# What the verdict on a rule says about its query

A rule is valid when one of its conditions is usable.  This can be told without compiling it, and it
tells what compiling it will give:

* `Rule.isValid_iff`        valid rules are those with a condition whose field is not blank;
* `text_build_ne_iff`       where no emitter is silent, they are those whose query has a text;
* `Report.valid_iff`        so the two parts of a report agree;
* `check_eq_zero_iff`       and so do the two commands that look at a document;
* `isValid_predicts_query`  all this together, with what is left of it for silent emitters.
-/

namespace SavedFilter

theorem Rule.isValid_iff (r : Rule) :
    r.isValid = true ↔ ∃ c ∈ r.conditions, Text.trim c.field.toList ≠ [] := by
  simp only [r.isValid_eq_any, List.any_eq_true, Condition.isUsable_iff]

/-! ## builders -/

namespace Builder
variable {ops : Operators} (b : Builder) {r : Option Rule}

theorem isValid_of_text_build (h : (b.build ops r).output.text ≠ "") :
    ∃ t, r = some t ∧ t.isValid = true := by
  cases r with
  | none => exact absurd rfl h
  | some t => exact ⟨t, rfl, Rule.isValid_of_text_query b.token h⟩

theorem values_build_of_text_eq (h : (b.build ops r).output.text = "") :
    (b.build ops r).output.values = [] := by
  cases r with
  | none => rfl
  | some t => exact Rule.values_query_of_text_eq b.token h

theorem text_build_ne_iff (hops : ops.Speaks) :
    (b.build ops r).output.text ≠ "" ↔ ∃ t, r = some t ∧ t.isValid = true := by
  refine ⟨b.isValid_of_text_build, ?_⟩
  rintro ⟨t, rfl, ht⟩
  exact (Rule.text_query_ne_iff b.token hops t).mpr ht

end Builder

/-! ## the program -/

theorem Report.valid_iff (token : String) (g : Group) :
    (Report.ofGroup .builtin token g).valid = true ↔
      (Report.ofGroup .builtin token g).query.text ≠ "" :=
  (Rule.text_query_ne_iff token Operators.ofForms_builtin.speaks g.toRule).symm

namespace Program
variable (files : Files) (s : Settings) (file : String)

/-- what is printed of a document is a report that agrees with itself -/
theorem exists_report_of_compile {pretty : Bool} {code : Nat} {line : String}
    (h : execute files s (.compile file pretty) = .ok (code, line)) :
    ∃ g, loadDocument files file = .ok g ∧
      line = (Report.ofGroup .builtin s.token g).text s.pretty ∧
      ((Report.ofGroup .builtin s.token g).valid = true ↔
        (Report.ofGroup .builtin s.token g).query.text ≠ "") := by
  obtain ⟨g, hg, hline⟩ := map_eq_ok.mp h
  exact ⟨g, hg, (Prod.mk.inj hline).2.symm, Report.valid_iff s.token g⟩

theorem checkCode_eq_zero_iff (g : Group) : checkCode g = 0 ↔ g.isValid = true := by
  unfold checkCode
  cases g.isValid <;> decide

/-- a document passes the check just when the query that is reported of it has a text -/
theorem check_eq_zero_iff (token : String) :
    (∃ line, execute files s (.check file) = .ok (0, line)) ↔
      ∃ g, loadDocument files file = .ok g ∧
        (Report.ofGroup .builtin token g).query.text ≠ "" := by
  constructor
  · rintro ⟨line, h⟩
    obtain ⟨g, hg, hline⟩ := map_eq_ok.mp h
    have hv := (checkCode_eq_zero_iff g).mp (Prod.mk.inj hline).1
    exact ⟨g, hg, (Report.valid_iff token g).mp hv⟩
  · rintro ⟨g, hg, htext⟩
    have hcode := (checkCode_eq_zero_iff g).mpr ((Report.valid_iff token g).mpr htext)
    exact ⟨checkLine g, map_eq_ok.mpr ⟨g, hg, Prod.ext hcode rfl⟩⟩

end Program

open Program in
/-- **Whether a rule is valid tells whether its query will have a text.**  Whatever the emitters
are, a query with a text comes from a valid rule, and one without binds no values; where none of
them is silent, and those of the built-in forms are not, every valid rule has a text.  So the two
parts of a report agree, in all that is printed of documents, and just the documents whose query
has a text pass the check. -/
theorem isValid_predicts_query :
    (∀ r : Rule, r.isValid = true ↔ ∃ c ∈ r.conditions, Text.trim c.field.toList ≠ []) ∧
    (∀ (ops : Operators) (b : Builder) (r : Option Rule),
      ((b.build ops r).output.text ≠ "" → ∃ t, r = some t ∧ t.isValid = true) ∧
      ((b.build ops r).output.text = "" → (b.build ops r).output.values = []) ∧
      (ops.Speaks → ((b.build ops r).output.text ≠ "" ↔ ∃ t, r = some t ∧ t.isValid = true))) ∧
    (∀ (f : Form) (c : Condition) (b : Buffer), (f.emitter c b).text ≠ "") ∧
    (∀ ops : Operators, ops.OfForms → ops.Speaks) ∧
    (∀ (token : String) (g : Group), (Report.ofGroup .builtin token g).valid = true ↔
      (Report.ofGroup .builtin token g).query.text ≠ "") ∧
    ∀ (files : Files) (s : Settings) (file : String),
      (∀ pretty code line, execute files s (.compile file pretty) = .ok (code, line) →
        ∃ g, loadDocument files file = .ok g ∧
          line = (Report.ofGroup .builtin s.token g).text s.pretty ∧
          ((Report.ofGroup .builtin s.token g).valid = true ↔
            (Report.ofGroup .builtin s.token g).query.text ≠ "")) ∧
      ∀ token, (∃ line, execute files s (.check file) = .ok (0, line)) ↔
        ∃ g, loadDocument files file = .ok g ∧
          (Report.ofGroup .builtin token g).query.text ≠ "" :=
  ⟨Rule.isValid_iff,
    fun _ b _ => ⟨b.isValid_of_text_build, b.values_build_of_text_eq, b.text_build_ne_iff⟩,
    Form.text_emitter_ne, fun _ h => h.speaks, Report.valid_iff,
    fun files s file => ⟨fun _ _ _ h => exists_report_of_compile files s file h,
      check_eq_zero_iff files s file⟩⟩

/-- a valid rule whose only emitter is silent, and a document with a condition that is not usable
and one that is -/
theorem isValid_predicts_query_hushed :
    let r : Rule := .group .or [.condition ⟨" ", "equal", .bool true, none⟩,
      .condition ⟨"A", "hush", .bool false, none⟩] none
    let hushed := Operators.builtin.insert "hush" fun c _ => ⟨"", [c.value]⟩
    let b : Builder := ⟨"t", ⟨"(B", [.null]⟩⟩
    let files : Files := fun _ =>
      .content "[\"or\", [[\"filter\"], [\"filter\", \"A\", \"is-null\"]]]".toUTF8
    let report : Report := ⟨⟨"(A == NULL)", []⟩, true⟩
    (r.isValid = true ∧ (b.build hushed (some r)).output.text = "" ∧
      (b.build hushed (some r)).output.values = []) ∧
    (Operators.builtin.Speaks ∧ (b.build .builtin (some r)).output.text ≠ "") ∧
    (Program.execute files ⟨"t", false⟩ (.compile "f" true)).toOption
      = some (0, report.text false) ∧
    (Program.execute files ⟨"t", false⟩ (.check "f")).toOption = some (0, "valid") ∧
    ∃ g', Program.loadDocument files "f" = .ok g' ∧
      (Report.ofGroup .builtin "u" g').query.text ≠ "" := by
  intro r hushed b files report
  obtain ⟨hvalid, hbuild, -, hforms, -, hprogram⟩ := isValid_predicts_query
  have hspeaks : Operators.builtin.Speaks := hforms _ Operators.ofForms_builtin
  have hr : r.isValid = true := by decide
  have hsilent : (b.build hushed (some r)).output.text = "" := by decide +kernel
  have hcompile : (Program.execute files ⟨"t", false⟩ (.compile "f" true)).toOption
      = some (0, report.text false) := by decide +kernel
  have hcheck : (Program.execute files ⟨"t", false⟩ (.check "f")).toOption = some (0, "valid") := by
    decide +kernel
  refine ⟨⟨hr, hsilent, (hbuild hushed b (some r)).2.1 hsilent⟩, ⟨hspeaks, ?_⟩, hcompile, hcheck,
    ?_⟩
  · exact ((hbuild .builtin b (some r)).2.2 hspeaks).mpr ⟨r, rfl, hr⟩
  · exact ((hprogram files ⟨"t", false⟩ "f").2 "u").mp ⟨"valid", toOption_eq_some.mp hcheck⟩

end SavedFilter
