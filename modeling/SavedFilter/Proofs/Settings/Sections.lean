import SavedFilter.Proofs.Json.Objects
import SavedFilter.Settings.File

/-!
# Reading the parts of a settings file

The settings are read from the text itself.  Each reader that does so takes a value off the front of
it, and the same one in front of every rest:

* `isValueReader_nullable`   what may be null;
* `isValueReader_setting`    a setting of a section, or what is passed over there;
* `isValueReader_section`    a section, which is an object or an array;
* `isValueReader_member`     a member of the file.
-/

namespace SavedFilter.FileSettings
open Json Json.Reader Text

section
variable {α : Type} {read : Nat → List Char → Except Json.Fault (α × List Char)}

/-! ## settings -/

theorem isLocal_nullable (h : IsValueReader read) : IsLocal fun n => nullable (read n) := by
  intro fuel cs a rest hr
  dsimp only [nullable] at hr
  split at hr
  · cases hr
  · next c ds hds =>
    obtain ⟨gap, rfl, hgap⟩ := exists_gap hds
    have hspace := not_isSpace_of_skipSpace hds
    -- both branches go on at the character behind the white space
    suffices htakes : ∃ t, c :: ds = c :: t ++ rest ∧ ∀ n rest, (c :: t).length < n →
        Stops continuesNumber rest → nullable (read n) (c :: (t ++ rest)) = .ok (a, rest) by
      obtain ⟨t, hcs, ht⟩ := htakes
      refine ⟨gap ++ c :: t, by rw [hcs, List.append_assoc], fun n rest hn hs => ?_⟩
      rw [List.length_append] at hn
      rw [← ht n rest (by omega) hs, List.append_assoc, List.cons_append]
      simp only [nullable, skipSpace_gap hgap hspace, skipSpace_cons hspace]
    split_ifs at hr with hc
    · subst hc
      obtain ⟨t, rfl, ht⟩ := isLocal_word "ull".toList Option.none 0 ds a rest hr
      refine ⟨t, rfl, fun n rest _ hs => ?_⟩
      simp only [nullable, skipSpace_cons hspace, if_true]
      exact ht (t.length + 1) rest (Nat.lt_succ_self _) hs
    · obtain ⟨t, hcs, ht⟩ := h.isLocal.map some fuel (c :: ds) a rest hr
      cases t with
      | nil =>
        obtain ⟨p, hp, -⟩ := map_eq_ok.mp (ht 1 [] Nat.zero_lt_one stops_nil)
        cases h.passes hp
      | cons d t =>
        obtain ⟨rfl, rfl⟩ := List.cons.inj hcs
        refine ⟨t, rfl, fun n rest hn hs => ?_⟩
        simp only [nullable, skipSpace_cons hspace, if_neg hc]
        exact ht n rest hn hs

theorem isValueReader_nullable (h : IsValueReader read) :
    IsValueReader fun n => nullable (read n) where
  isLocal := isLocal_nullable h
  passes hr := by
    dsimp only [nullable] at hr
    split at hr
    · cases hr
    · next c ds hds =>
      split_ifs at hr with hc
      · subst hc
        exact passes_word (v := .null) hds (by decide) (by decide) rfl hr
      · obtain ⟨p, hp, rfl⟩ := map_eq_ok.mp hr
        have hskip := Skip.resumes_of_skip (h.passes hp)
        rw [← hds] at hskip
        exact Skip.value_of_resumes (Skip.resumes_of_skipSpace hskip)

theorem isValueReader_textSetting : IsValueReader fun _ => textSetting where
  isLocal := by
    intro fuel cs s rest h
    dsimp only [textSetting] at h
    split at h
    · exact takes_of_first isLocal_string (fun _ _ => rfl) fuel h
    · cases h
  passes h := by
    unfold textSetting at h
    split at h
    · next cs =>
      have hstring : scalar '"' cs = (string cs).map fun r => (.str r.1, r.2) := rfl
      rw [h] at hstring
      exact Skip.value_of_resumes
        (Skip.resumes_of_scalar (skipSpace_cons rfl cs) (by decide) (by decide) hstring)
    · cases h

theorem isValueReader_boolSetting : IsValueReader fun _ => boolSetting where
  isLocal := by
    intro fuel cs s rest h
    dsimp only [boolSetting] at h
    split at h
    · exact takes_of_first (isLocal_word "rue".toList true) (fun _ _ => rfl) fuel h
    · exact takes_of_first (isLocal_word "alse".toList false) (fun _ _ => rfl) fuel h
    · cases h
  passes h := by
    unfold boolSetting at h
    split at h
    · exact passes_word (v := .bool true) (skipSpace_cons rfl _) (by decide) (by decide) rfl h
    · exact passes_word (v := .bool false) (skipSpace_cons rfl _) (by decide) (by decide) rfl h
    · cases h

end

section
variable {α : Type} {read : List Char → Except Json.Fault (α × List Char)}
  (h : IsValueReader fun _ => read) (name : String)
include h

theorem isValueReader_setting (key : String) :
    IsValueReader fun _ => setting name read key := by
  by_cases hkey : key = name
  · have hread := (isValueReader_nullable h).map some
    exact hread.congr fun _ _ => if_pos hkey
  · exact (isValueReader_skip Option.none).congr fun _ _ => if_neg hkey

/-! ## sections -/

omit h in
/-- a section that is an object has the one setting that its members make -/
theorem sectionOf_object (n : Nat) (cs : List Char) :
    sectionOf n name read ('{' :: cs) = members (setting name read) n cs >>= fun r =>
      (atMostOne (r.1.filterMap (·.2))).map (·, r.2) := by
  refine congrArg (members (setting name read) n cs >>= ·) (funext fun r => ?_)
  dsimp only
  cases atMostOne (r.1.filterMap (·.2)) <;> rfl

/-- the setting of a section that is an array -/
def onlyItem (vs : List (Option α)) : Except Json.Fault (Option α) :=
  match vs with
  | [v] => .ok v
  | _ => .error .malformed

omit h in
theorem sectionOf_array (n : Nat) (cs : List Char) :
    sectionOf n name read ('[' :: cs) = items (nullable read) n cs >>= fun r =>
      (onlyItem r.1).map (·, r.2) := by
  refine congrArg (items (nullable read) n cs >>= ·) (funext fun ⟨vs, rest⟩ => ?_)
  match vs with
  | [] | [_] | _ :: _ :: _ => rfl

omit h in
theorem exists_of_section {n : Nat} {cs : List Char} {r : Option α × List Char}
    (hr : sectionOf n name read cs = .ok r) : ∃ ds, cs = '{' :: ds ∨ cs = '[' :: ds := by
  unfold sectionOf at hr
  split at hr
  · exact ⟨_, .inl rfl⟩
  · exact ⟨_, .inr rfl⟩
  · cases hr

theorem isValueReader_section : IsValueReader fun n => sectionOf n name read where
  isLocal := by
    intro fuel cs o rest hr
    obtain ⟨ds, rfl | rfl⟩ := exists_of_section name hr
    · have hmembers := isLocal_members fun key => isValueReader_setting h name key
      exact takes_of_first (hmembers.check fun ms => atMostOne (ms.filterMap (·.2)))
        (sectionOf_object name) fuel hr
    · have hitems := isLocal_items (isValueReader_nullable h).isLocal
      exact takes_of_first (hitems.check onlyItem) (sectionOf_array name) fuel hr
  passes := by
    intro n cs r hr
    refine Skip.value_of_resumes ?_
    obtain ⟨ds, rfl | rfl⟩ := exists_of_section name hr
    · rw [sectionOf_object] at hr
      obtain ⟨p, hp, ho⟩ := bind_eq_ok.mp hr
      obtain ⟨o, -, rfl⟩ := map_eq_ok.mp ho
      exact Skip.resumes_object (fun key _ _ hv =>
        Skip.resumes_of_skip ((isValueReader_setting h name key).passes (n := 0) hv))
        (skipSpace_cons rfl ds) hp
    · rw [sectionOf_array] at hr
      obtain ⟨p, hp, ho⟩ := bind_eq_ok.mp hr
      obtain ⟨o, -, rfl⟩ := map_eq_ok.mp ho
      exact Skip.resumes_array (fun _ _ hv =>
        Skip.resumes_of_skip ((isValueReader_nullable h).passes (n := 0) hv))
        (skipSpace_cons rfl ds) hp

end

theorem isValueReader_member (key : String) : IsValueReader fun n => member n key := by
  unfold member
  split_ifs
  · exact (isValueReader_nullable (isValueReader_section isValueReader_textSetting _)).map _
  · exact (isValueReader_nullable (isValueReader_section isValueReader_boolSetting _)).map _
  · exact (isValueReader_value _).map fun _ => Member.unknown

end SavedFilter.FileSettings
