import Mathlib.Data.List.DropRight
import SavedFilter.Query.Operators

/-!
# Tables of operators by their entries

A table is filled by entering emitters under codes, one after the other.  Here it is read off these
entries:

* `trim_trim`, `normalForm_operatorCode`   a code has one normal form, however often it is trimmed;
* `latest entries key`                     the emitter that was entered last under a normal form;
* `find_insertAll`                         a table finds the latest of its entries.
-/

namespace SavedFilter
namespace Text

theorem trim_eq_rdropWhile (cs : List Char) :
    trim cs = (cs.dropWhile isBlank).rdropWhile isBlank := rfl

theorem dropWhile_eq_self_of_prefix {cs ds : List Char} (h : cs <+: ds)
    (hd : ds.dropWhile isBlank = ds) : cs.dropWhile isBlank = cs := by
  cases cs with
  | nil => rfl
  | cons c cs =>
    obtain ⟨t, rfl⟩ := h
    rw [List.dropWhile_eq_self_iff] at hd ⊢
    intro _
    exact hd (by simp)

theorem trim_trim (cs : List Char) : trim (trim cs) = trim cs := by
  have hp : trim cs <+: cs.dropWhile isBlank := by
    rw [trim_eq_rdropWhile]
    exact List.rdropWhile_prefix _ _
  have hs : (trim cs).dropWhile isBlank = trim cs :=
    dropWhile_eq_self_of_prefix hp (List.dropWhile_idempotent _ _)
  rw [trim_eq_rdropWhile (trim cs), hs, trim_eq_rdropWhile, List.rdropWhile_idempotent]

theorem trim_eq_nil_iff (cs : List Char) : trim cs = [] ↔ cs.all isBlank = true := by
  rw [← trimStart_eq_nil_iff, trim, List.reverse_eq_nil_iff, trimStart_eq_nil_iff, List.all_reverse,
    ← trimStart_eq_nil_iff]
  exact ⟨fun h => (List.dropWhile_idempotent isBlank cs).symm.trans h, fun h => by rw [h]; rfl⟩

end Text

open Operators

/-- the normal form of the operator of a condition; a blank operator is the default one -/
def Condition.operatorKey (c : Condition) : String :=
  if Text.allBlank c.operator then "equal" else normalForm c.operator

theorem Condition.normalForm_operatorCode (c : Condition) :
    normalForm c.operatorCode = c.operatorKey := by
  unfold operatorCode operatorKey Text.allBlank
  by_cases h : c.operator.toList.all Text.isBlank = true
  · rw [if_pos h, (Text.trim_eq_nil_iff _).mpr h]
    rfl
  · have hne : Text.trim c.operator.toList ≠ [] := by
      intro he
      exact h ((Text.trim_eq_nil_iff _).mp he)
    rw [if_neg h]
    simp only [List.isEmpty_iff, hne, if_false]
    rw [normalForm, String.toList_ofList, Text.trim_trim]
    rfl

namespace Operators

/-- the emitter that was entered last under a normal form; without one, `==` compares -/
def latest (entries : List (String × Emitter)) (key : String) : Emitter :=
  ((entries.reverse.find? fun e => normalForm e.1 == key).map (·.2)).getD (.comparison "==")

theorem insertAll_cons (ops : Operators) (e : String × Emitter)
    (entries : List (String × Emitter)) :
    ops.insertAll (e :: entries) = (ops.insert e.1 e.2).insertAll entries := rfl

theorem insertAll_append (ops : Operators) (entries more : List (String × Emitter)) :
    ops.insertAll (entries ++ more) = (ops.insertAll entries).insertAll more := by
  simp [insertAll, List.foldl_append]

/-- entries that are put into a table stand before what it held -/
theorem find_insertAll_getD (ops : Operators) (entries : List (String × Emitter)) (code : String) :
    (ops.insertAll entries).find code =
      ((entries.reverse.find? fun e => normalForm e.1 == normalForm code).map (·.2)).getD
        (ops.find code) := by
  induction entries generalizing ops with
  | nil => rfl
  | cons e entries ih =>
    rw [insertAll_cons, ih, find_insert, List.reverse_cons, List.find?_append]
    cases entries.reverse.find? fun e => normalForm e.1 == normalForm code with
    | some found => simp only [Option.some_or, Option.map_some, Option.getD_some]
    | none =>
      by_cases he : normalForm e.1 = normalForm code
      · simp [he]
      · simp [he]

theorem find_insertAll (entries : List (String × Emitter)) (code : String) :
    (empty.insertAll entries).find code = latest entries (normalForm code) := by
  rw [find_insertAll_getD, find_empty]
  rfl

theorem find_operatorCode (entries : List (String × Emitter)) (c : Condition) :
    (empty.insertAll entries).find c.operatorCode = latest entries c.operatorKey := by
  rw [find_insertAll, c.normalForm_operatorCode]

theorem builtin_insertAll (entries : List (String × Emitter)) :
    builtin.insertAll entries = empty.insertAll (builtinEntries ++ entries) :=
  (insertAll_append empty builtinEntries entries).symm

theorem latest_mem {P : Emitter → Prop} {entries : List (String × Emitter)}
    (h : ∀ e ∈ entries, P e.2) (h0 : P (.comparison "==")) (key : String) :
    P (latest entries key) := by
  unfold latest
  cases hf : entries.reverse.find? fun e => normalForm e.1 == key with
  | none => exact h0
  | some e => exact h e (List.mem_reverse.mp (List.mem_of_find?_eq_some hf))

end Operators
end SavedFilter
