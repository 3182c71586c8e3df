import SavedFilter.Proofs.Json.Locality

/-!
# What is passed over

To pass over a value takes a part off the front of a text too, and the same part in front of every
other rest.  The steps of the loop are shown to do so one by one:

* `takes_closing`, `takes_advance`   behind a value, and up to the place of the next one;
* `isLocal_value`    a value is passed over alike in front of every rest;
* `resumes_of_skip`  and alike whatever brackets wait behind it;
* `IsValueReader`    a local reader that takes just what is passed over.
-/

namespace SavedFilter.Json.Skip
open Reader Text

/-! ## strings and keys -/

theorem takes_string {cs rest : List Char} (h : string cs = .ok rest) :
    ∃ t, cs = t ++ rest ∧ ∀ rest, string (t ++ rest) = .ok rest := by
  fun_induction string cs
  all_goals try (cases h; done)
  case case3 h₁ h₂ h₃ h₄ _ hall ih =>
    exact takes_unit (u := ['\\', 'u', h₁, h₂, h₃, h₄]) (fun _ => string_hex hall) (ih h)
  case case6 e _ he hx ih => exact takes_unit (u := ['\\', e]) (fun _ => string_letter he hx) (ih h)
  case case8 =>
    rw [← Except.ok.inj h]
    exact ⟨['"'], rfl, fun _ => string_quote⟩
  case case10 c _ hb hq hs ih =>
    exact takes_unit (u := [c]) (fun _ => string_plain hb hq hs) (ih h)

theorem takes_key {cs rest : List Char} (h : key cs = .ok rest) :
    ∃ t, cs = t ++ rest ∧ ∀ rest, key (t ++ rest) = .ok rest := by
  unfold key at h
  split at h
  · next ds hds =>
    obtain ⟨es, hk, hcolon⟩ := bind_eq_ok.mp h
    split at hcolon
    · next fs hfs =>
      obtain rfl := Except.ok.inj hcolon
      obtain ⟨t, hds', ht⟩ := takes_string hk
      obtain ⟨gap, hcs, hgap⟩ := exists_gap hds
      obtain ⟨gap', hes, hgap'⟩ := exists_gap hfs
      refine ⟨gap ++ '"' :: (t ++ (gap' ++ [':'])), by simp [hcs, hds', hes], fun rest => ?_⟩
      have htext : gap ++ '"' :: (t ++ (gap' ++ [':'])) ++ rest =
          gap ++ '"' :: (t ++ (gap' ++ ':' :: rest)) := by simp
      rw [htext]
      simp only [key, skipSpace_gap hgap (c := '"') rfl, ht, bind, Except.bind,
        skipSpace_gap hgap' (c := ':') rfl]
    · cases hcolon
  · cases h

theorem key_append {gap : List Char} (hgap : ∀ c ∈ gap, isSpace c = true) (cs : List Char) :
    key (gap ++ cs) = key cs := by
  simp only [key, skipSpace_append hgap]

/-! ## values without parts -/

/-- a reader that keeps nothing of the parts that it takes -/
def IsLocal (skip : List Char → Except Fault (List Char)) : Prop :=
  ∀ cs rest, skip cs = .ok rest →
    ∃ t, cs = t ++ rest ∧ ∀ rest, Stops continuesNumber rest → skip (t ++ rest) = .ok rest

theorem isLocal_of_reader {α : Type} {read : List Char → Except Fault (α × List Char)}
    (h : Json.IsLocal fun _ => read) : IsLocal fun cs => (read cs).map (·.2) := by
  intro cs rest hr
  obtain ⟨⟨a, rest'⟩, ha, rfl⟩ := map_eq_ok.mp hr
  obtain ⟨t, hcs, ht⟩ := h 0 cs a rest' ha
  refine ⟨t, hcs, fun rest hs => ?_⟩
  have hread : read (t ++ rest) = .ok (a, rest) := ht (t.length + 1) rest (Nat.lt_succ_self _) hs
  dsimp only
  rw [hread]
  rfl

theorem isLocal_scalar (c : Char) : IsLocal (scalar c) := by
  have hcongr : ∀ skip : List Char → Except Fault (List Char), IsLocal skip →
      (∀ cs, scalar c cs = skip cs) → IsLocal (scalar c) :=
    fun _ h heq => funext heq ▸ h
  by_cases hq : c = '"'
  · refine hcongr string ?_ fun cs => by rw [scalar, if_pos hq]
    intro cs rest h
    obtain ⟨t, hcs, ht⟩ := takes_string h
    exact ⟨t, hcs, fun rest _ => ht rest⟩
  by_cases hm : c = '-'
  · exact hcongr _ (isLocal_of_reader (isLocal_numeral true)) fun cs => by
      rw [scalar, if_neg hq, if_pos hm]
  by_cases hd : c.isDigit = true
  · have hlocal := (isLocal_numeral false).cons (fun _ => error_ne_ok) c
    exact hcongr _ (isLocal_of_reader hlocal) fun cs => by
      rw [scalar, if_neg hq, if_neg hm, if_pos hd]
  · exact hcongr _ (isLocal_of_reader (Json.isLocal_scalar c)) fun cs => by
      rw [scalar, if_neg hq, if_neg hm, if_neg hd]

/-! ## the loop -/

section
variable {gap : List Char} (hgap : ∀ c ∈ gap, isSpace c = true) {b : Bracket}
  {opened : List Bracket} {rest : List Char}
include hgap

theorem closing_close : closing (b :: opened) (gap ++ b.closing :: rest) = closing opened rest := by
  have hspace : isSpace b.closing = false := by cases b <;> rfl
  have hne : b.closing ≠ ',' := by cases b <;> decide
  simp only [closing, skipSpace_gap hgap hspace, if_neg hne, if_true]

theorem closing_comma_array :
    closing (.array :: opened) (gap ++ ',' :: rest) = .ok (.array :: opened, rest) := by
  simp only [closing, skipSpace_gap hgap (c := ',') rfl, if_true]

theorem closing_comma_object :
    closing (.object :: opened) (gap ++ ',' :: rest) =
      (key rest).map (.object :: opened, ·) := by
  simp only [closing, skipSpace_gap hgap (c := ',') rfl, if_true]

end

/-- behind a value that stands in no bracket nothing is taken, and else a mark -/
theorem takes_closing {opened : List Bracket} {cs : List Char} {r : List Bracket × List Char}
    (h : closing opened cs = .ok r) :
    ∃ t, cs = t ++ r.2 ∧ (∀ rest, closing opened (t ++ rest) = .ok (r.1, rest)) ∧
      ∀ rest, (r.1 = [] → Stops continuesNumber rest) → Stops continuesNumber (t ++ rest) := by
  induction opened generalizing cs with
  | nil =>
    rw [← Except.ok.inj h]
    exact ⟨[], rfl, fun _ => rfl, fun _ hs => hs rfl⟩
  | cons b opened ih =>
    unfold closing at h
    split at h
    · cases h
    · next c ds hds =>
      obtain ⟨gap, rfl, hgap⟩ := exists_gap hds
      split_ifs at h with hcomma hclose
      · subst hcomma
        cases b with
        | array =>
          rw [← Except.ok.inj h]
          refine ⟨gap ++ [','], by simp, fun rest => ?_, fun rest _ => ?_⟩
          · rw [List.append_assoc]
            exact closing_comma_array hgap
          · rw [List.append_assoc]
            exact stops_gap hgap rfl rest
        | object =>
          obtain ⟨es, hk, rfl⟩ := map_eq_ok.mp h
          obtain ⟨t, rfl, ht⟩ := takes_key hk
          refine ⟨gap ++ ',' :: t, by simp, fun rest => ?_, fun rest _ => ?_⟩
          · rw [List.append_assoc, List.cons_append, closing_comma_object hgap, ht]
            rfl
          · rw [List.append_assoc]
            exact stops_gap hgap rfl _
      · subst hclose
        have hmark : continuesNumber b.closing = false := by cases b <;> rfl
        obtain ⟨t, rfl, ht, -⟩ := ih h
        refine ⟨gap ++ b.closing :: t, by simp, fun rest => ?_, fun rest _ => ?_⟩
        · rw [List.append_assoc, List.cons_append, closing_close hgap, ht]
        · rw [List.append_assoc]
          exact stops_gap hgap hmark _

section
variable {gap gap' : List Char} (hgap : ∀ c ∈ gap, isSpace c = true) {opened : List Bracket}
  {c : Char} {rest : List Char}
include hgap

theorem advance_object (hne : (skipSpace rest).head? ≠ some '}') :
    advance opened (gap ++ '{' :: rest) = (key rest).map (.object :: opened, ·) := by
  simp only [advance, skipSpace_gap hgap (c := '{') rfl, Char.reduceEq, if_false, if_true]
  split
  · next hes => exact absurd (congrArg List.head? hes) hne
  · rw [key, key, skipSpace_skipSpace]

theorem advance_scalar (hspace : isSpace c = false) (ha : c ≠ '[') (ho : c ≠ '{') :
    advance opened (gap ++ c :: rest) = scalar c rest >>= closing opened := by
  simp only [advance, skipSpace_gap hgap hspace, if_neg ha, if_neg ho]

variable (hgap' : ∀ c ∈ gap', isSpace c = true)
include hgap'

theorem advance_array (hfirst : skipSpace rest = rest) (hne : rest.head? ≠ some ']') :
    advance opened (gap ++ '[' :: (gap' ++ rest)) = .ok (.array :: opened, rest) := by
  simp only [advance, skipSpace_gap hgap (c := '[') rfl, if_true, skipSpace_append hgap', hfirst]
  split
  · exact absurd rfl hne
  · rfl

theorem advance_empty_array :
    advance opened (gap ++ '[' :: (gap' ++ ']' :: rest)) = closing opened rest := by
  simp only [advance, skipSpace_gap hgap (c := '[') rfl, if_true,
    skipSpace_gap hgap' (c := ']') rfl]

theorem advance_empty_object :
    advance opened (gap ++ '{' :: (gap' ++ '}' :: rest)) = closing opened rest := by
  simp only [advance, skipSpace_gap hgap (c := '{') rfl, Char.reduceEq, if_false, if_true,
    skipSpace_gap hgap' (c := '}') rfl]

end

/-- what may stand at the place of the next value: what goes on like the text that was read, or when
no bracket waits anything that ends a number -/
def Follows (opened : List Bracket) (cs rest : List Char) : Prop :=
  if opened = [] then Stops continuesNumber rest else rest.head? = cs.head?

theorem skipSpace_of_head? {cs rest : List Char} (h : rest.head? = (skipSpace cs).head?) :
    skipSpace rest = rest := by
  cases rest with
  | nil => rfl
  | cons c rest =>
    cases hds : skipSpace cs with
    | nil => rw [hds] at h; cases h
    | cons d ds =>
      rw [hds] at h
      rw [Option.some.inj h]
      exact skipSpace_cons (not_isSpace_of_skipSpace hds) rest

theorem takes_advance {opened : List Bracket} {cs : List Char} {r : List Bracket × List Char}
    (h : advance opened cs = .ok r) :
    ∃ t, t ≠ [] ∧ cs = t ++ r.2 ∧
      ∀ rest, Follows r.1 r.2 rest → advance opened (t ++ rest) = .ok (r.1, rest) := by
  unfold advance at h
  split at h
  · cases h
  · next c ds hds =>
    obtain ⟨gap, hcs, hgap⟩ := exists_gap hds
    have hspace := not_isSpace_of_skipSpace hds
    split_ifs at h with harr hobj
    · subst harr
      split at h
      · next es hes =>
        obtain ⟨gap', rfl, hgap'⟩ := exists_gap hes
        obtain ⟨t, rfl, ht, -⟩ := takes_closing h
        refine ⟨gap ++ '[' :: (gap' ++ ']' :: t), by simp, by simp [hcs], fun rest _ => ?_⟩
        have htext : gap ++ '[' :: (gap' ++ ']' :: t) ++ rest =
          gap ++ '[' :: (gap' ++ ']' :: (t ++ rest)) := by simp
        rw [htext, advance_empty_array hgap hgap', ht]
      · next hne =>
        obtain ⟨gap', hds', hgap'⟩ := exists_gap (rfl : skipSpace ds = skipSpace ds)
        rw [← Except.ok.inj h]
        have hsplit : cs = gap ++ '[' :: gap' ++ skipSpace ds := by
          rw [List.append_assoc, List.cons_append, ← hds', hcs]
        refine ⟨gap ++ '[' :: gap', by simp, hsplit, fun rest hrest => ?_⟩
        have hhead : rest.head? = (skipSpace ds).head? := by
          rwa [Follows, if_neg (List.cons_ne_nil _ _)] at hrest
        have hclose : rest.head? ≠ some ']' := by
          rw [hhead]
          intro hsome
          obtain ⟨es, hes⟩ := List.head?_eq_some_iff.mp hsome
          exact hne es hes
        rw [List.append_assoc, List.cons_append,
          advance_array hgap hgap' (skipSpace_of_head? hhead) hclose]
    · subst hobj
      split at h
      · next es hes =>
        obtain ⟨gap', rfl, hgap'⟩ := exists_gap hes
        obtain ⟨t, rfl, ht, -⟩ := takes_closing h
        refine ⟨gap ++ '{' :: (gap' ++ '}' :: t), by simp, by simp [hcs], fun rest _ => ?_⟩
        have htext : gap ++ '{' :: (gap' ++ '}' :: t) ++ rest =
          gap ++ '{' :: (gap' ++ '}' :: (t ++ rest)) := by simp
        rw [htext, advance_empty_object hgap hgap', ht]
      · next hne =>
        obtain ⟨gap', hds', hgap'⟩ := exists_gap (rfl : skipSpace ds = skipSpace ds)
        obtain ⟨es, hk, rfl⟩ := map_eq_ok.mp h
        obtain ⟨t, hes, ht⟩ := takes_key hk
        have hsplit : cs = gap ++ '{' :: (gap' ++ t) ++ es := by
          rw [List.append_assoc, List.cons_append, List.append_assoc, ← hes, ← hds', hcs]
        refine ⟨gap ++ '{' :: (gap' ++ t), by simp, hsplit, fun rest _ => ?_⟩
        have hhead : (t ++ rest).head? = (skipSpace ds).head? := by
          rw [hes]
          cases t with
          | nil => cases ht []
          | cons d t => rfl
        have hclose : (skipSpace (gap' ++ (t ++ rest))).head? ≠ some '}' := by
          rw [skipSpace_append hgap', skipSpace_of_head? hhead, hhead]
          intro hsome
          obtain ⟨fs, hfs⟩ := List.head?_eq_some_iff.mp hsome
          exact hne fs hfs
        rw [List.append_assoc, List.cons_append, List.append_assoc, advance_object hgap hclose,
          key_append hgap', ht]
        rfl
    · obtain ⟨es, hscalar, hclosing⟩ := bind_eq_ok.mp h
      obtain ⟨t, rfl, ht⟩ := isLocal_scalar c ds es hscalar
      obtain ⟨t', rfl, ht', hstops⟩ := takes_closing hclosing
      refine ⟨gap ++ c :: (t ++ t'), by simp, by simp [hcs], fun rest hrest => ?_⟩
      have htext : gap ++ c :: (t ++ t') ++ rest = gap ++ c :: (t ++ (t' ++ rest)) := by simp
      have hend : r.1 = [] → Stops continuesNumber rest := by
        intro hnil
        rwa [Follows, if_pos hnil] at hrest
      rw [htext, advance_scalar hgap hspace harr hobj, ht _ (hstops rest hend)]
      exact ht' rest

theorem takes_values {n : Nat} {opened : List Bracket} {cs rest : List Char}
    (h : values n opened cs = .ok rest) :
    ∃ t, t ≠ [] ∧ cs = t ++ rest ∧ ∀ n' rest, t.length ≤ n' → Stops continuesNumber rest →
      values n' opened (t ++ rest) = .ok rest := by
  induction n generalizing opened cs with
  | zero => cases h
  | succ n ih =>
    rw [values_succ] at h
    obtain ⟨r, hr, hmore⟩ := bind_eq_ok.mp h
    obtain ⟨t, hne, hcs, ht⟩ := takes_advance hr
    have hpos := List.length_pos_iff.mpr hne
    split_ifs at hmore with hnil
    · obtain rfl := Except.ok.inj hmore
      have hnil : r.1 = [] := List.isEmpty_iff.mp hnil
      refine ⟨t, hne, hcs, fun n' rest hn hs => ?_⟩
      obtain ⟨k, rfl⟩ : ∃ k, n' = k + 1 := ⟨n' - 1, by omega⟩
      have hfollows : Follows r.1 r.2 rest := (if_pos hnil).mpr hs
      rw [values_succ, ht rest hfollows, hnil]
      rfl
    · obtain ⟨t', hne', hds, ht'⟩ := ih hmore
      refine ⟨t ++ t', by simp [hne], by rw [hcs, hds, List.append_assoc], fun n' rest hn hs => ?_⟩
      rw [List.length_append] at hn
      obtain ⟨k, rfl⟩ : ∃ k, n' = k + 1 := ⟨n' - 1, by omega⟩
      have hwait : r.1 ≠ [] := fun hr => hnil (List.isEmpty_iff.mpr hr)
      have hfollows : Follows r.1 r.2 (t' ++ rest) := by
        rw [Follows, if_neg hwait, hds, List.head?_append_of_ne_nil _ hne',
          List.head?_append_of_ne_nil _ hne']
      rw [List.append_assoc, values_succ, ht _ hfollows]
      show (if r.1.isEmpty then _ else values k r.1 (t' ++ rest)) = _
      rw [if_neg hnil, ht' k rest (by omega) hs]

/-- **A value is passed over alike in front of every rest.** -/
theorem isLocal_value : IsLocal value := by
  intro cs rest h
  obtain ⟨t, -, hcs, ht⟩ := takes_values h
  refine ⟨t, hcs, fun rest hs => ht _ rest ?_ hs⟩
  rw [List.length_append]
  omega

/-! ## brackets that wait behind -/

/-- what is done with more brackets behind the ones that were open -/
def behind (more : List Bracket) (r : List Bracket × List Char) :
    Except Fault (List Bracket × List Char) :=
  if r.1 = [] then closing more r.2 else .ok (r.1 ++ more, r.2)

section
variable (opened more : List Bracket) (cs : List Char)

theorem behind_map (b : Bracket) (x : Except Fault (List Char)) :
    x.map (b :: opened ++ more, ·) = x.map (b :: opened, ·) >>= behind more := by
  cases x <;> rfl

theorem closing_append : closing (opened ++ more) cs = closing opened cs >>= behind more := by
  induction opened generalizing cs with
  | nil => rfl
  | cons b opened ih =>
    rw [List.cons_append, closing, closing]
    split
    · rfl
    · split_ifs
      · cases b with
        | array => rfl
        | object => exact behind_map opened more .object _
      · exact ih _
      · rfl

theorem advance_append : advance (opened ++ more) cs = advance opened cs >>= behind more := by
  unfold advance
  split
  · rfl
  · split_ifs
    · split
      · exact closing_append opened more _
      · rfl
    · split
      · exact closing_append opened more _
      · exact behind_map opened more .object _
    · rw [bind_assoc]
      exact congrArg _ (funext (closing_append opened more))

end

theorem resume_of_values {n : Nat} {opened : List Bracket} {cs rest : List Char}
    (h : values n opened cs = .ok rest) :
    ∃ k, k + rest.length ≤ cs.length ∧
      ∀ n more, values (n + k) (opened ++ more) cs = resume n more rest := by
  induction n generalizing opened cs with
  | zero => cases h
  | succ n ih =>
    rw [values_succ] at h
    obtain ⟨r, hr, hmore⟩ := bind_eq_ok.mp h
    obtain ⟨t, hne, rfl, -⟩ := takes_advance hr
    have hpos := List.length_pos_iff.mpr hne
    split_ifs at hmore with hnil
    · obtain rfl := Except.ok.inj hmore
      refine ⟨1, by rw [List.length_append]; omega, fun n more => ?_⟩
      have hbehind : behind more r = closing more r.2 := if_pos (List.isEmpty_iff.mp hnil)
      rw [values_succ, advance_append, hr]
      show behind more r >>= _ = _
      rw [hbehind]
      rfl
    · obtain ⟨k, hk, hresume⟩ := ih hmore
      have hwaits : r.1 ≠ [] := fun hr => hnil (List.isEmpty_iff.mpr hr)
      refine ⟨k + 1, by rw [List.length_append]; omega, fun n more => ?_⟩
      have hbehind : behind more r = .ok (r.1 ++ more, r.2) := if_neg hwaits
      have hwait : (r.1 ++ more).isEmpty = false :=
        List.isEmpty_eq_false_iff.mpr (List.append_ne_nil_of_left_ne_nil hwaits more)
      rw [← Nat.add_assoc, values_succ, advance_append, hr]
      show behind more r >>= _ = _
      rw [hbehind]
      show (if (r.1 ++ more).isEmpty then _ else values (n + k) (r.1 ++ more) r.2) = _
      rw [hwait, if_neg Bool.false_ne_true, hresume]

/-- **A value is passed over alike whatever brackets wait behind it.** -/
theorem resumes_of_skip {cs rest : List Char} (h : value cs = .ok rest) : Resumes cs rest :=
  resume_of_values h

end SavedFilter.Json.Skip

namespace SavedFilter.Json
open Reader Text

/-! ## readers that take values -/

section
variable {α β : Type} {read : Nat → List Char → Except Fault (α × List Char)}

/-- a local reader that takes just what is passed over as a value -/
structure IsValueReader (read : Nat → List Char → Except Fault (α × List Char)) : Prop where
  isLocal : IsLocal read
  passes : ∀ {n cs r}, read n cs = .ok r → Skip.value cs = .ok r.2

theorem IsValueReader.map (h : IsValueReader read) (f : α → β) :
    IsValueReader fun n cs => (read n cs).map fun r => (f r.1, r.2) where
  isLocal := h.isLocal.map f
  passes hr := by
    obtain ⟨p, hp, rfl⟩ := map_eq_ok.mp hr
    exact h.passes hp

theorem IsValueReader.congr {read' : Nat → List Char → Except Fault (α × List Char)}
    (h : IsValueReader read) (heq : ∀ n cs, read' n cs = read n cs) : IsValueReader read' := by
  obtain rfl : read' = read := funext fun n => funext fun cs => heq n cs
  exact h

/-- a word that stands for a value -/
theorem passes_word {c : Char} {w cs ds : List Char} {v : Json} {a : α} {r : α × List Char}
    (hs : skipSpace cs = c :: ds) (ha : c ≠ '[') (ho : c ≠ '{')
    (hscalar : scalar c ds = (word w ds).map (v, ·)) (h : (word w ds).map (a, ·) = .ok r) :
    Skip.value cs = .ok r.2 := by
  obtain ⟨rest, hrest, rfl⟩ := map_eq_ok.mp h
  rw [hrest] at hscalar
  exact Skip.value_of_resumes (Skip.resumes_of_scalar hs ha ho hscalar)

/-- nothing is kept of what is passed over -/
theorem isValueReader_skip (a : α) :
    IsValueReader fun _ cs => (Skip.value cs).map (a, ·) where
  isLocal := by
    intro fuel cs a' rest h
    obtain ⟨rest', hrest, he⟩ := map_eq_ok.mp h
    obtain ⟨rfl, rfl⟩ := Prod.mk.inj he
    obtain ⟨t, hcs, ht⟩ := Skip.isLocal_value cs rest' hrest
    refine ⟨t, hcs, fun _ rest _ hs => ?_⟩
    dsimp only
    rw [ht rest hs]
    rfl
  passes h := by
    obtain ⟨rest, hrest, rfl⟩ := map_eq_ok.mp h
    exact hrest

end

end SavedFilter.Json
