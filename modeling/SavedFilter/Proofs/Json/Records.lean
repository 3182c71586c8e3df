import SavedFilter.Proofs.Json.Lookups
import SavedFilter.Proofs.Json.Nesting

/-!
# Records as objects and as arrays

A record is a list of fields, every key once, behind the members that tell its kind.  It is written
as an object, with its keys in any order, or as the array of what stands in its fields.  A field
that has its default may be left out: of an object every such field, of an array those at the end.

* `IsRecord`          the values that are written for a record;
* `Gives`             a field is found under its key, or is left out and has its default;
* `IsRecord.read`     what a reader finds in an object and in an array;
* `IsRecord.writable`, `IsRecord.nesting_le`   what holds of the fields holds of the record.
-/

namespace SavedFilter.Json

/-- a value that is written for the fields of a record that has `front` in front of them -/
inductive IsRecord (defaults front fields : List (String × Json)) : Json → Prop
  | object {kept ms : List (String × Json)} :
      kept.Sublist fields → (∀ m ∈ fields, m ∉ kept → m ∈ defaults) → (front ++ kept).Perm ms →
      IsRecord defaults front fields (.obj ms)
  | array {kept left : List (String × Json)} :
      kept ++ left = fields → (∀ m ∈ left, m ∈ defaults) →
      IsRecord defaults front fields (.arr ((front ++ kept).map Prod.snd))

/-- the field is found under its key, or nothing is and the field has its default -/
def Gives (defaults ms : List (String × Json)) (m : String × Json) : Prop :=
  ms.lookup m.1 = some m.2 ∨ ms.lookup m.1 = none ∧ m ∈ defaults

section
variable {defaults front fields kept : List (String × Json)}

theorem gives_of_sublist (hk : (fields.map Prod.fst).Nodup) (hkept : kept.Sublist fields)
    (hleft : ∀ m ∈ fields, m ∉ kept → m ∈ defaults) :
    ∀ m ∈ fields, Gives defaults kept m := by
  intro m hm
  by_cases hmem : m ∈ kept
  · exact .inl (lookup_of_mem (hk.sublist (hkept.map Prod.fst)) hmem)
  · refine .inr ⟨lookup_eq_none fun hkey => ?_, hleft m hm hmem⟩
    -- the key of a field that is left out is not that of another field
    obtain ⟨n, hn, hnm⟩ := List.mem_map.mp hkey
    exact hmem (List.inj_on_of_nodup_map hk (hkept.subset hn) hm hnm ▸ hn)

/-- what stands in the first fields, beside the keys of all -/
theorem zip_map_snd {left : List (String × Json)} (h : kept ++ left = fields) :
    (fields.map Prod.fst).zip (kept.map Prod.snd) = kept := by
  subst h
  induction kept with
  | nil => exact List.zip_nil_right
  | cons m ms ih => exact congrArg (m :: ·) ih

section
variable {ms : List (String × Json)} (hkept : kept.Sublist fields) (hms : (front ++ kept).Perm ms)
include hkept hms

theorem nodup_of_object (hk : ((front ++ fields).map Prod.fst).Nodup) :
    (ms.map Prod.fst).Nodup := by
  have hsub : ((front ++ kept).map Prod.fst).Sublist ((front ++ fields).map Prod.fst) :=
    (hkept.append_left front).map Prod.fst
  exact (hms.map Prod.fst).nodup_iff.mp (hk.sublist hsub)

theorem mem_of_object {m : String × Json} (hm : m ∈ ms) : m ∈ front ++ fields :=
  (hkept.append_left front).subset (hms.mem_iff.mpr hm)

end

/-! ## what a reader finds -/

section
variable {v : Json} (hk : ((front ++ fields).map Prod.fst).Nodup)
  (h : IsRecord defaults front fields v)
include hk h

/-- Under its keys an object gives the fields, and nothing under others.  So does an array behind
what stands in front, where its items are taken for the values of all keys in their order. -/
theorem IsRecord.read :
    (∃ ms, v = .obj ms ∧ (ms.map Prod.fst).Nodup ∧
      (∀ key ∉ (front ++ fields).map Prod.fst, ms.lookup key = none) ∧
      (∀ m ∈ front, ms.lookup m.1 = some m.2) ∧ ∀ m ∈ fields, Gives defaults ms m) ∨
    ∃ items, v = .arr (front.map Prod.snd ++ items) ∧ items.length ≤ fields.length ∧
      ∀ m ∈ fields, Gives defaults ((fields.map Prod.fst).zip items) m := by
  have happ := List.map_append (f := Prod.fst) ▸ hk
  obtain ⟨-, hfields, hdisjoint⟩ := List.nodup_append.mp happ
  cases h with
  | @object kept ms hkept hleft hms =>
    have hkeys := nodup_of_object hkept hms hk
    have hmem (m : String × Json) (hm : m ∈ ms) : m ∈ front ++ fields := mem_of_object hkept hms hm
    refine .inl ⟨ms, rfl, hkeys, fun key hkey => ?_, fun m hm => ?_, fun m hm => ?_⟩
    · exact lookup_eq_none fun h => hkey (List.map_subset Prod.fst hmem h)
    · exact lookup_of_mem hkeys (hms.mem_iff.mp (List.mem_append_left kept hm))
    · have hfront : front.lookup m.1 = none := lookup_eq_none fun hkey =>
        hdisjoint m.1 hkey m.1 (List.mem_map_of_mem hm) rfl
      have hlookup : ms.lookup m.1 = kept.lookup m.1 := by
        rw [lookup_perm hms.symm hkeys, List.lookup_append, hfront, Option.none_or]
      rw [Gives, hlookup]
      exact gives_of_sublist hfields hkept hleft m hm
  | @array kept left hkept hleft =>
    refine .inr ⟨kept.map Prod.snd, by rw [List.map_append], ?_, ?_⟩
    · rw [List.length_map, ← hkept, List.length_append]
      exact Nat.le_add_right _ _
    · rw [zip_map_snd hkept]
      have hsub : kept.Sublist fields := hkept ▸ List.sublist_append_left kept left
      refine gives_of_sublist hfields hsub fun m hm hnot => ?_
      rw [← hkept, List.mem_append] at hm
      exact hleft m (hm.resolve_left hnot)

/-! ## what holds of every field -/

theorem IsRecord.members : ∃ ms : List (String × Json), (v = .obj ms ∨ v = .arr (ms.map Prod.snd)) ∧
    (ms.map Prod.fst).Nodup ∧ ∀ m ∈ ms, m ∈ front ++ fields := by
  cases h with
  | @object kept ms hkept _ hms =>
    exact ⟨ms, .inl rfl, nodup_of_object hkept hms hk, fun m hm => mem_of_object hkept hms hm⟩
  | @array kept left hkept _ =>
    have hsub : kept.Sublist fields := hkept ▸ List.sublist_append_left kept left
    exact ⟨front ++ kept, .inr rfl, nodup_of_object hsub (.refl _) hk,
      fun m hm => mem_of_object hsub (.refl _) hm⟩

theorem IsRecord.writable (hw : ∀ m ∈ front ++ fields, m.2.Writable) : v.Writable := by
  obtain ⟨ms, rfl | rfl, hkeys, hmem⟩ := h.members hk
  · exact ⟨hkeys, membersWritable_iff.mpr fun m hm => hw m (hmem m hm)⟩
  · exact allWritable_iff.mpr (List.forall_mem_map.mpr fun m hm => hw m (hmem m hm))

theorem IsRecord.nesting_le {n : Nat} (hn : ∀ m ∈ front ++ fields, m.2.nesting ≤ n) :
    v.nesting ≤ n + 1 := by
  obtain ⟨ms, rfl | rfl, -, hmem⟩ := h.members hk
  · exact Nat.succ_le_succ (nestingOfMembers_le_iff.mpr fun m hm => hn m (hmem m hm))
  · exact Nat.succ_le_succ (nestingOfAll_le_iff.mpr
      (List.forall_mem_map.mpr fun m hm => hn m (hmem m hm)))

end
end
end SavedFilter.Json
