import SavedFilter.Proofs.Query.Entries

/-!
# The codes of a table

A table of operators is a map from normal forms to emitters.  In whatever spelling something is
entered or looked up, the answer can be told from the list of the entries:

* `normalForm_normalForm`   a normal form is its own normal form;
* `find_insertAll_of_ne`    entries under other codes are not felt;
* `find_insertAll_last`     of the entries under one code the last one counts;
* `mem_codes_insertAll`     the codes are the normal forms that have been entered;
* `codes_eq_of_mem_iff`     tables with the same codes list them in the same order;
* `lastWins_insertAll`      all this together, for a table that is filled from nothing or on top of
                            the built-in operators.
-/

namespace SavedFilter
namespace Text

theorem toNat_toLower (c : Char) :
    c.toLower.toNat = if 65 ≤ c.toNat ∧ c.toNat ≤ 90 then c.toNat + 32 else c.toNat := by
  delta Char.toLower
  by_cases h : 65 ≤ c.toNat ∧ c.toNat ≤ 90
  · have hval : c.val ≥ 'A'.val ∧ c.val ≤ 'Z'.val := h
    rw [if_pos h, dif_pos hval]
    show (c.val + ('a'.val - 'A'.val)).toNat = c.toNat + 32
    rw [UInt32.toNat_add]
    show (c.toNat + 32) % 4294967296 = c.toNat + 32
    omega
  · have hval : ¬ (c.val ≥ 'A'.val ∧ c.val ≤ 'Z'.val) := h
    rw [if_neg h, dif_neg hval]

/-- no letter is blank, whatever its case -/
theorem isBlank_toLower (c : Char) : isBlank c.toLower = isBlank c := by
  simp only [isBlank, toNat_toLower]
  split_ifs with h
  · grind
  · rfl

theorem trim_map {f : Char → Char} (hf : ∀ c, isBlank (f c) = isBlank c) (cs : List Char) :
    trim (cs.map f) = (trim cs).map f := by
  have hp : isBlank ∘ f = isBlank := funext hf
  simp only [trim, trimStart, List.dropWhile_map, hp, ← List.map_reverse]

end Text

namespace Operators

theorem normalForm_normalForm (code : String) : normalForm (normalForm code) = normalForm code := by
  have hlower : Char.toLower ∘ Char.toLower = Char.toLower := by
    funext c
    apply Char.toNat_inj.mp
    simp only [Function.comp_apply, Text.toNat_toLower]
    split_ifs <;> omega
  rw [normalForm, normalForm, String.toList_ofList, Text.trim_map Text.isBlank_toLower,
    Text.trim_trim, List.map_map, hlower]

/-! ## which emitter is found -/

section
variable {ops : Operators} {entries : List (String × Emitter)} {code : String}

theorem find_insertAll_of_ne (h : ∀ d ∈ entries, normalForm d.1 ≠ normalForm code) :
    (ops.insertAll entries).find code = ops.find code := by
  have hnone : entries.reverse.find? (fun d => normalForm d.1 == normalForm code) = none := by
    apply List.find?_eq_none.mpr
    intro d hd
    rw [beq_iff_eq]
    exact h d (List.mem_reverse.mp hd)
  rw [find_insertAll_getD, hnone]
  rfl

theorem find_insertAll_last {before after : List (String × Emitter)} {e : String × Emitter}
    (he : normalForm e.1 = normalForm code)
    (h : ∀ d ∈ after, normalForm d.1 ≠ normalForm code) :
    (ops.insertAll (before ++ e :: after)).find code = e.2 := by
  rw [insertAll_append, insertAll_cons, find_insertAll_of_ne h, find_insert, if_pos he]

end

/-! ## which codes are listed -/

section
variable {ops ops' : Operators} {entries : List (String × Emitter)} {code : String}

theorem contains_iff : ops.contains code = true ↔ normalForm code ∈ ops.codes := by
  rw [contains, codes, Std.TreeMap.contains_iff_mem, Std.TreeMap.mem_keys]

theorem mem_codes_insert {key : String} {e : Emitter} :
    key ∈ (ops.insert code e).codes ↔ normalForm code = key ∨ key ∈ ops.codes := by
  simp only [codes, insert, Std.TreeMap.mem_keys, Std.TreeMap.mem_insert,
    Std.LawfulEqCmp.compare_eq_iff_eq]

theorem mem_codes_insertAll {key : String} :
    key ∈ (ops.insertAll entries).codes ↔
      (∃ e ∈ entries, normalForm e.1 = key) ∨ key ∈ ops.codes := by
  induction entries generalizing ops with
  | nil => simp [insertAll]
  | cons e entries ih =>
    rw [insertAll_cons, ih, mem_codes_insert]
    simp only [List.mem_cons, exists_eq_or_imp, or_assoc, or_left_comm]

theorem not_mem_codes_empty {key : String} : key ∉ empty.codes := by
  simp [codes, empty]

theorem pairwise_codes (ops : Operators) : ops.codes.Pairwise (· < ·) := by
  have hkeys := Std.TreeMap.ordered_keys (t := ops.table)
  exact hkeys.imp compareOfLessAndEq_eq_lt.mp

/-- what is listed in order is determined by what is listed at all -/
theorem codes_eq_of_mem_iff (h : ∀ key, key ∈ ops.codes ↔ key ∈ ops'.codes) :
    ops.codes = ops'.codes := by
  have hnodup : ∀ o : Operators, o.codes.Nodup := by
    intro o
    apply o.pairwise_codes.imp
    rintro a _ hlt rfl
    exact String.lt_irrefl a hlt
  have hperm : ops.codes.Perm ops'.codes :=
    (List.perm_ext_iff_of_nodup (hnodup ops) (hnodup ops')).mpr h
  exact hperm.eq_of_pairwise (fun _ _ _ _ hab hba => absurd hba (String.lt_asymm hab))
    ops.pairwise_codes ops'.pairwise_codes

theorem codes_insertAll_perm {other : List (String × Emitter)} (h : entries.Perm other) :
    (ops.insertAll entries).codes = (ops.insertAll other).codes := by
  apply codes_eq_of_mem_iff
  intro key
  simp only [mem_codes_insertAll, h.mem_iff]

end

/-! ## the table and its entries -/

/-- The table is the map in which, of some entries, the last one under a normal form counts, and
`==` compares under every code without entry. -/
structure LastWins (ops : Operators) (entries : List (String × Emitter)) : Prop where
  find_last : ∀ before e after code, entries = before ++ e :: after →
    normalForm e.1 = normalForm code → (∀ d ∈ after, normalForm d.1 ≠ normalForm code) →
    ops.find code = e.2
  find_other : ∀ code, (∀ e ∈ entries, normalForm e.1 ≠ normalForm code) →
    ops.find code = .comparison "=="
  contains_iff_entered : ∀ code,
    ops.contains code = true ↔ ∃ e ∈ entries, normalForm e.1 = normalForm code
  contains_iff_listed : ∀ code, ops.contains code = true ↔ normalForm code ∈ ops.codes
  codes_increase : ops.codes.Pairwise (· < ·)
  codes_normal : ∀ code ∈ ops.codes, normalForm code = code

theorem lastWins_empty_insertAll (entries : List (String × Emitter)) :
    (empty.insertAll entries).LastWins entries := by
  have hmem : ∀ key, key ∈ (empty.insertAll entries).codes ↔
      ∃ e ∈ entries, normalForm e.1 = key := by
    intro key
    rw [mem_codes_insertAll, or_iff_left not_mem_codes_empty]
  refine ⟨?_, ?_, fun code => contains_iff.trans (hmem _), fun code => contains_iff,
    pairwise_codes _, ?_⟩
  · rintro before e after code rfl he h
    exact find_insertAll_last he h
  · intro code h
    rw [find_insertAll_of_ne h, find_empty]
    rfl
  · intro code hcode
    obtain ⟨e, -, rfl⟩ := (hmem code).mp hcode
    exact normalForm_normalForm e.1

/-- **A table is a map over normal forms in which the last entry wins**, whether it is filled from
nothing or on top of the built-in operators, and its codes do not depend on the order of the
entries. -/
theorem lastWins_insertAll (entries : List (String × Emitter)) :
    (empty.insertAll entries).LastWins entries ∧
    (builtin.insertAll entries).LastWins (builtinEntries ++ entries) ∧
    ∀ other : List (String × Emitter), entries.Perm other →
      (empty.insertAll entries).codes = (empty.insertAll other).codes ∧
      (builtin.insertAll entries).codes = (builtin.insertAll other).codes := by
  refine ⟨lastWins_empty_insertAll entries, ?_, ?_⟩
  · rw [builtin_insertAll]
    exact lastWins_empty_insertAll (builtinEntries ++ entries)
  · intro other h
    exact ⟨codes_insertAll_perm h, codes_insertAll_perm h⟩

/-- three spellings of one code, and the operator `equal` replaced, which leaves a code without
entry at `==` -/
theorem lastWins_insertAll_respelt :
    let entries : List (String × Emitter) :=
      [("Near", .comparison "~"), ("EQUAL", .comparison "="), (" near", .nullTest "~"),
        ("\u3000NEAR\t", .call "Near" true)]
    let ops := builtin.insertAll entries
    ops.find "near " = .call "Near" true ∧ ops.find "Equal" = .comparison "=" ∧
      ops.find "Not-Equal" = .comparison "!=" ∧ ops.find "between" = .comparison "==" ∧
      ops.contains "nEAR" = true ∧ "near" ∈ ops.codes ∧ ops.codes.Pairwise (· < ·) ∧
      ops.codes = (builtin.insertAll entries.reverse).codes := by
  intro entries ops
  obtain ⟨-, h, hperm⟩ := lastWins_insertAll entries
  have hnear : ops.contains "nEAR" = true :=
    (h.contains_iff_entered "nEAR").mpr ⟨("Near", .comparison "~"), by simp [entries], by decide⟩
  refine ⟨?_, ?_, ?_, h.find_other "between" (by decide +kernel), hnear,
    (h.contains_iff_listed "nEAR").mp hnear, h.codes_increase,
    (hperm entries.reverse entries.reverse_perm.symm).2⟩
  · exact h.find_last (builtinEntries ++ entries.take 3) _ [] "near " rfl (by decide) (by simp)
  · exact h.find_last (builtinEntries ++ entries.take 1) _ (entries.drop 2) "Equal" rfl (by decide)
      (by decide +kernel)
  · exact h.find_last (builtinEntries.take 7) ("not-equal", .comparison "!=")
      (builtinEntries.drop 8 ++ entries) "Not-Equal" rfl (by decide) (by decide +kernel)

end Operators
end SavedFilter
