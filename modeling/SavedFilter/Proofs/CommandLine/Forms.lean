import Mathlib.Data.List.TakeWhile
import SavedFilter.CommandLine

/-!
# The forms of arguments

Which arguments have a form, and which form an argument has that was put together for it:

* `form_eq_escape_iff`, `form_eq_plain_iff`   the arguments that are no options;
* `form_long`, `form_long_equals`, `long_of_form`         options by their name;
* `form_letter`, `form_letter_equals`, `short_of_form`   options by their letter.
-/

namespace SavedFilter.CommandLine

/-- an argument that stands for itself, because it does not look like an option -/
def IsValue (v : String) : Prop := v = "-" ∨ v.toList.head? ≠ some '-'

instance (v : String) : Decidable (IsValue v) :=
  inferInstanceAs (Decidable (v = "-" ∨ v.toList.head? ≠ some '-'))

theorem eq_ofList_of_toList {arg : String} {cs : List Char} (h : arg.toList = cs) :
    arg = String.ofList cs := h ▸ String.ofList_toList.symm

theorem form_eq_escape_iff {arg : String} : form arg = .escape ↔ arg = "--" := by
  constructor
  · intro h
    unfold form at h
    split at h
    · next ht => exact eq_ofList_of_toList ht
    all_goals exact nomatch h
  · rintro rfl
    rfl

theorem not_isValue_of_toList {arg : String} {c : Char} {cs : List Char}
    (h : arg.toList = '-' :: c :: cs) : ¬ IsValue arg := by
  rintro (rfl | hne)
  · exact nomatch h
  · rw [h] at hne
    exact hne rfl

theorem form_eq_plain_iff {arg : String} : form arg = .plain ↔ IsValue arg := by
  unfold form
  split
  · next h => exact iff_of_false (fun h => nomatch h) (not_isValue_of_toList h)
  · next h => exact iff_of_false (fun h => nomatch h) (not_isValue_of_toList h)
  · next h => exact iff_of_true rfl (.inl (eq_ofList_of_toList h))
  · next h => exact iff_of_false (fun h => nomatch h) (not_isValue_of_toList h)
  · next hdash hletter =>
    refine iff_of_true rfl (.inr ?_)
    intro hhead
    obtain ⟨cs, hcs⟩ := List.head?_eq_some_iff.mp hhead
    cases cs with
    | nil => exact hdash hcs
    | cons letter cs => exact hletter letter cs hcs

/-! ## options by their name -/

/-- what stands behind the name of an option -/
def attachedText : Option String → String
  | none => ""
  | some v => "=" ++ v

theorem toList_attachedText_some (v : String) : (attachedText (some v)).toList = '=' :: v.toList :=
  String.toList_append

theorem attachedValue_append {cs : List Char} (h : '=' ∉ cs) (attached : Option String) :
    (cs ++ (attachedText attached).toList).takeWhile (· != '=') = cs ∧
      attachedValue ((cs ++ (attachedText attached).toList).dropWhile (· != '=')) = attached := by
  have hne : ∀ c ∈ cs, (c != '=') = true := by
    intro c hc
    rw [bne_iff_ne]
    rintro rfl
    exact h hc
  rw [List.takeWhile_append_of_pos hne, List.dropWhile_append_of_pos hne]
  cases attached with
  | none => exact ⟨List.append_nil cs, rfl⟩
  | some v =>
    rw [toList_attachedText_some]
    exact ⟨List.append_nil cs, congrArg some String.ofList_toList⟩

/-- a text is what stands in front of the first `=`, and the rest -/
theorem append_attachedText (cs : List Char) :
    cs.takeWhile (· != '=') ++ (attachedText (attachedValue (cs.dropWhile (· != '=')))).toList =
      cs := by
  induction cs with
  | nil => rfl
  | cons c cs ih =>
    by_cases hc : c = '='
    · subst hc
      show (attachedText (some (String.ofList cs))).toList = _
      rw [toList_attachedText_some, String.toList_ofList]
    · have hne : (c != '=') = true := bne_iff_ne.mpr hc
      rw [List.takeWhile_cons_of_pos (p := (· != '=')) hne,
        List.dropWhile_cons_of_pos (p := (· != '=')) hne, List.cons_append, ih]

theorem toList_long (name rest : String) :
    ("--" ++ name ++ rest).toList = '-' :: '-' :: (name.toList ++ rest.toList) := by
  rw [String.append_assoc, String.toList_append, String.toList_append]
  rfl

theorem form_long_attachedText {name : String} (hne : name ≠ "") (h : '=' ∉ name.toList)
    (attached : Option String) :
    form ("--" ++ name ++ attachedText attached) = .long name attached := by
  have htext := toList_long name (attachedText attached)
  obtain ⟨htake, hattached⟩ := attachedValue_append h attached
  have hcons := List.append_ne_nil_of_left_ne_nil (mt String.toList_eq_nil_iff.mp hne)
    (attachedText attached).toList
  obtain ⟨c, cs, hcs⟩ := List.exists_cons_of_ne_nil hcons
  rw [hcs] at htext htake hattached
  simp only [form, htext, htake, hattached, String.ofList_toList]

section
variable {name : String} (hne : name ≠ "") (h : '=' ∉ name.toList)
include hne h

theorem form_long : form ("--" ++ name) = .long name none := by
  have hform := form_long_attachedText hne h none
  rwa [attachedText, String.append_empty] at hform

theorem form_long_equals (v : String) : form ("--" ++ name ++ "=" ++ v) = .long name (some v) := by
  have hform := form_long_attachedText hne h (some v)
  rwa [attachedText, ← String.append_assoc] at hform

end

theorem long_of_form {arg name : String} {attached : Option String}
    (h : form arg = .long name attached) : arg = "--" ++ name ++ attachedText attached := by
  unfold form at h
  split at h
  · exact nomatch h
  · next cs _ ht =>
    obtain ⟨rfl, rfl⟩ := Form.long.inj h
    apply String.toList_inj.mp
    rw [ht, toList_long, String.toList_ofList, append_attachedText]
  all_goals exact nomatch h

/-! ## options by their letter -/

theorem form_letter_equals (v : String) : form ("-c=" ++ v) = .short 'c' (some v) := by
  have htext : ("-c=" ++ v).toList = '-' :: 'c' :: '=' :: v.toList := String.toList_append
  simp only [form, htext]
  exact congrArg _ (congrArg some String.ofList_toList)

theorem form_letter {v : String} (hne : v ≠ "") (h : v.toList.head? ≠ some '=') :
    form ("-c" ++ v) = .short 'c' (some v) := by
  have htext : ("-c" ++ v).toList = '-' :: 'c' :: v.toList := String.toList_append
  obtain ⟨c, cs, hcs⟩ := List.exists_cons_of_ne_nil (mt String.toList_eq_nil_iff.mp hne)
  rw [hcs] at htext h
  unfold form
  rw [htext]
  show Form.short 'c' (some (String.ofList (if (c :: cs).head? = some '=' then _ else c :: cs))) = _
  rw [if_neg h, ← hcs, String.ofList_toList]

theorem eq_of_shortValue {cs : List Char} {v : String} (h : shortValue cs = some v) :
    cs = '=' :: v.toList ∨ cs = v.toList ∧ v ≠ "" ∧ v.toList.head? ≠ some '=' := by
  cases cs with
  | nil => exact nomatch h
  | cons c cs =>
    obtain rfl := Option.some.inj h
    rw [String.toList_ofList]
    by_cases hc : (c :: cs).head? = some '='
    · rw [if_pos hc, Option.some.inj hc]
      exact .inl rfl
    · rw [if_neg hc]
      have hne : String.ofList (c :: cs) ≠ "" :=
        mt String.ofList_eq_empty_iff.mp (List.cons_ne_nil c cs)
      exact .inr ⟨rfl, hne, hc⟩

theorem short_of_form {arg : String} {letter : Char} {attached : Option String}
    (h : form arg = .short letter attached) :
    ∃ cs, arg.toList = '-' :: letter :: cs ∧ shortValue cs = attached := by
  unfold form at h
  split at h
  iterate 3 exact nomatch h
  · next ht =>
    obtain ⟨rfl, rfl⟩ := Form.short.inj h
    exact ⟨_, ht, rfl⟩
  · exact nomatch h

theorem letter_of_form {arg : String} (h : form arg = .short 'c' none) : arg = "-c" := by
  obtain ⟨cs, ht, hcs⟩ := short_of_form h
  cases cs with
  | nil => exact eq_ofList_of_toList ht
  | cons c cs => exact nomatch hcs

theorem letter_of_form_attached {arg v : String} (h : form arg = .short 'c' (some v)) :
    arg = "-c=" ++ v ∨ arg = "-c" ++ v ∧ v ≠ "" ∧ v.toList.head? ≠ some '=' := by
  obtain ⟨cs, ht, hcs⟩ := short_of_form h
  rcases eq_of_shortValue hcs with rfl | ⟨rfl, hv⟩
  · exact .inl (String.toList_inj.mp (ht.trans (String.toList_append (s := "-c=")).symm))
  · exact .inr ⟨String.toList_inj.mp (ht.trans (String.toList_append (s := "-c")).symm), hv⟩

end SavedFilter.CommandLine
