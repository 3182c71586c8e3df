import SavedFilter.Proofs.Json.RoundTrip

/-!
# Lines of JSON

A text that is printed stands on a line: white space follows it, and where the layout writes none
the text itself has no line break.

* `parseText_compactText_append`, `parseText_prettyText_append`   white space behind a text changes
                     nothing that is read;
* `shown_render`     a compact text has no control characters, because those of strings are escaped.
-/

namespace SavedFilter.Json
open Text Binary64 Reader

/-! ## white space behind a text -/

section
variable {v : Json} (hw : v.Writable) (hn : v.nesting ≤ maxNesting) {gap : String}
  (h : ∀ c ∈ gap.toList, isSpace c = true)
include hw hn h

theorem parseText_compactText_append : parseText (v.compactText ++ gap) = .ok v := by
  rw [parseText, compactText, String.toList_append, String.toList_ofList, ← Gaps.text_tight 0]
  exact parse_text_append _ 0 hw hn h

theorem parseText_prettyText_append : parseText (v.prettyText ++ gap) = .ok v := by
  rw [parseText, prettyText, String.toList_append, String.toList_ofList, ← Gaps.text_wide 0]
  exact parse_text_append _ 0 hw hn h

end

/-! ## texts without control characters -/

/-- no character of the text is a control character below `U+0020` -/
def Shown (cs : List Char) : Prop := ∀ c ∈ cs, ¬ c < ' '

-- by the characters of the text, because deciding by all characters there are does not end
instance (cs : List Char) : Decidable (Shown cs) := List.decidableBAll _ cs

theorem Shown.newline_not_mem {cs : List Char} (h : Shown cs) : '\n' ∉ cs :=
  fun hc => h _ hc (by decide)

theorem shown_nil : Shown [] := List.forall_mem_nil _

theorem shown_cons {c : Char} {cs : List Char} : Shown (c :: cs) ↔ ¬ c < ' ' ∧ Shown cs :=
  List.forall_mem_cons

theorem shown_append {as bs : List Char} : Shown (as ++ bs) ↔ Shown as ∧ Shown bs :=
  List.forall_mem_append

theorem shown_of_subset {as bs : List Char} (h : Shown bs) (hs : as ⊆ bs) : Shown as :=
  fun c hc => h c (hs hc)

theorem shown_replicate {c : Char} (n : Nat) (h : ¬ c < ' ') : Shown (List.replicate n c) := by
  intro x hx
  rw [List.eq_of_mem_replicate hx]
  exact h

theorem shown_decimal (n : Nat) : Shown (decimal n) := by
  intro c hc hlt
  have hdigit := isDigit_of_mem_decimal hc
  simp only [Char.isDigit, Bool.and_eq_true, decide_eq_true_eq] at hdigit
  exact absurd (UInt32.lt_of_le_of_lt hdigit.1 hlt) (by decide)

theorem shown_hex (width n : Nat) : Shown (hex width n) := by
  have hdigit : ∀ d < 16, ¬ Nat.digitChar d < ' ' := by decide
  induction width generalizing n with
  | zero => exact shown_nil
  | succ width ih =>
    exact shown_append.mpr
      ⟨ih _, List.forall_mem_singleton.mpr (hdigit _ (Nat.mod_lt _ (by omega)))⟩

theorem shown_escape (c : Char) : Shown (escape c) := by
  unfold escape
  split_ifs with h₁ h₂ h₃ h₄ h₅ h₆ h₇ h₈
  iterate 7 exact by decide
  · exact shown_cons.mpr ⟨by decide, shown_cons.mpr ⟨by decide, shown_hex 4 c.toNat⟩⟩
  · exact List.forall_mem_singleton.mpr h₈

theorem shown_quoted (s : String) : Shown (quoted s) := by
  refine shown_cons.mpr ⟨by decide, shown_append.mpr ⟨?_, by decide⟩⟩
  intro x hx
  obtain ⟨c, -, hc⟩ := List.mem_flatMap.mp hx
  exact shown_escape c x hc

/-! ### numbers -/

theorem shown_integer (n : Int) : Shown (integer n) := by
  unfold integer
  split_ifs
  · exact shown_cons.mpr ⟨by decide, shown_decimal _⟩
  · exact shown_decimal _

theorem shown_significant {ds : List Char} (h : Shown ds) : Shown (significant ds) := by
  apply shown_of_subset h
  intro c hc
  exact List.mem_reverse.mp ((List.dropWhile_sublist _).mem (List.mem_reverse.mp hc))

theorem shown_layout {ds : List Char} (h : Shown ds) (k : Int) : Shown (layout ds k) := by
  have hzeros : ∀ n, Shown (List.replicate n '0') := fun n => shown_replicate n (by decide)
  unfold layout
  split_ifs with hplain
  · cases k with
    | ofNat k =>
      dsimp only
      split_ifs
      · exact shown_append.mpr ⟨shown_append.mpr ⟨h, hzeros _⟩, by decide⟩
      · have htake : Shown (ds.take (k + 1)) := shown_of_subset h (List.take_subset _ _)
        have hdrop : Shown (ds.drop (k + 1)) := shown_of_subset h (List.drop_subset _ _)
        exact shown_append.mpr ⟨htake, shown_cons.mpr ⟨by decide, hdrop⟩⟩
    | negSucc k =>
      refine shown_append.mpr ⟨shown_cons.mpr ⟨by decide, shown_cons.mpr ⟨by decide, hzeros _⟩⟩, h⟩
  all_goals
    refine shown_append.mpr
      ⟨?_, shown_cons.mpr ⟨by decide, shown_cons.mpr ⟨by decide, shown_decimal _⟩⟩⟩
    split
    · exact shown_nil
    · exact h
    · next d rest _ =>
      obtain ⟨hd, hrest⟩ := shown_cons.mp h
      exact shown_cons.mpr ⟨hd, shown_cons.mpr ⟨by decide, hrest⟩⟩

theorem shown_magnitudeText (b : Nat) : Shown (magnitudeText b) := by
  unfold magnitudeText
  split_ifs
  · decide
  · exact shown_layout (shown_significant (shown_decimal _)) _

theorem shown_doubleText (x : Binary64) : Shown (doubleText x) := by
  unfold doubleText
  split_ifs
  · exact shown_cons.mpr ⟨by decide, shown_magnitudeText _⟩
  · exact shown_magnitudeText _

/-! ### values -/

theorem shown_scalarText : ∀ v : Json, Shown (scalarText v)
  | .bool true | .bool false => by decide
  | .null | .arr _ | .obj _ => show Shown "null".toList by decide
  | .int n => shown_integer n
  | .double x => shown_doubleText x
  | .str s => shown_quoted s

mutual

theorem shown_render : ∀ v : Json, Shown (render v)
  | .arr items => shown_cons.mpr ⟨by decide, shown_append.mpr ⟨shown_renderItems items, by decide⟩⟩
  | .obj members =>
    shown_cons.mpr ⟨by decide, shown_append.mpr ⟨shown_renderMembers members, by decide⟩⟩
  | .null => shown_scalarText .null
  | .bool b => shown_scalarText (.bool b)
  | .int n => shown_scalarText (.int n)
  | .double x => shown_scalarText (.double x)
  | .str s => shown_scalarText (.str s)

theorem shown_renderItems : ∀ vs : List Json, Shown (renderItems vs)
  | [] => shown_nil
  | v :: vs => shown_append.mpr ⟨shown_render v, shown_renderMore vs⟩

theorem shown_renderMore : ∀ vs : List Json, Shown (renderMore vs)
  | [] => shown_nil
  | v :: vs => shown_cons.mpr ⟨by decide, shown_append.mpr ⟨shown_render v, shown_renderMore vs⟩⟩

theorem shown_renderMembers : ∀ ms : List (String × Json), Shown (renderMembers ms)
  | [] => shown_nil
  | (k, v) :: ms => shown_append.mpr ⟨shown_quoted k, shown_cons.mpr ⟨by decide,
      shown_append.mpr ⟨shown_render v, shown_renderMoreMembers ms⟩⟩⟩

theorem shown_renderMoreMembers : ∀ ms : List (String × Json), Shown (renderMoreMembers ms)
  | [] => shown_nil
  | (k, v) :: ms => shown_cons.mpr ⟨by decide, shown_append.mpr ⟨shown_quoted k,
      shown_cons.mpr ⟨by decide, shown_append.mpr ⟨shown_render v, shown_renderMoreMembers ms⟩⟩⟩⟩

end

/-- **A compact text stands on one line.** -/
theorem newline_not_mem_compactText (v : Json) : '\n' ∉ v.compactText.toList := by
  rw [compactText, String.toList_ofList]
  exact (shown_render v).newline_not_mem

end SavedFilter.Json
