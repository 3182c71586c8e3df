import Mathlib.Data.List.Forall2
import Mathlib.Data.List.Nodup
import Mathlib.Data.Option.Basic
import SavedFilter.Json.Basic

/-!
# Looking up the keys of an object

Where keys stand once, what is found under a key does not depend on the order of the members
(`lookup_perm`).  When one value changes, all that can change is what is found under its key
(`lookup_rel_of_member`, `lookup_zip_rel`).
-/

namespace SavedFilter.Json

section
variable {α : Type} {key k : String} {ms ns : List (String × α)}

theorem lookup_cons_of_ne {v : α} (h : k ≠ key) : ((key, v) :: ms).lookup k = ms.lookup k := by
  rw [List.lookup_cons, beq_eq_false_iff_ne.mpr h]

theorem lookup_eq_none (h : key ∉ ms.map Prod.fst) : ms.lookup key = none := by
  rw [List.lookup_eq_none_iff]
  intro m hm
  rw [bne_iff_ne]
  intro hkey
  exact h (hkey ▸ List.mem_map_of_mem hm)

theorem mem_of_lookup {v : α} (h : ms.lookup key = some v) : (key, v) ∈ ms := by
  obtain ⟨before, after, rfl, -⟩ := List.lookup_eq_some_iff.mp h
  exact List.mem_append_right before List.mem_cons_self

theorem lookup_of_mem {v : α} (hd : (ms.map Prod.fst).Nodup)
    (h : (key, v) ∈ ms) : ms.lookup key = some v := by
  obtain ⟨before, after, rfl⟩ := List.append_of_mem h
  rw [List.map_append, List.map_cons] at hd
  refine List.lookup_eq_some_iff.mpr ⟨before, after, rfl, ?_⟩
  intro m hm
  have hkey := (List.nodup_append.mp hd).2.2 m.1 (List.mem_map_of_mem hm) key List.mem_cons_self
  exact bne_iff_ne.mpr (Ne.symm hkey)

/-- the order of the members does not matter where keys stand once -/
theorem lookup_perm (h : ms.Perm ns) (hk : (ms.map Prod.fst).Nodup) :
    ms.lookup key = ns.lookup key := by
  have hk' : (ns.map Prod.fst).Nodup := (h.map Prod.fst).nodup_iff.mp hk
  apply Option.ext
  intro v
  constructor
  · intro hv
    exact lookup_of_mem hk' (h.mem_iff.mp (mem_of_lookup hv))
  · intro hv
    exact lookup_of_mem hk (h.mem_iff.mpr (mem_of_lookup hv))

end

section
variable {R : Json → Json → Prop} {key k : String} {v w : Json}

theorem rel_cases {o o' : Option Json} (h : Option.Rel R o o') :
    (o = none ∧ o' = none) ∨ ∃ v w, o = some v ∧ o' = some w ∧ R v w := by
  cases h with
  | none => exact .inl ⟨rfl, rfl⟩
  | some h => exact .inr ⟨_, _, rfl, rfl, h⟩

theorem rel_of_eq {o o' : Option Json} (hrefl : ∀ a, R a a) (h : o = o') : Option.Rel R o o' := by
  subst h
  cases o with
  | none => exact .none
  | some a => exact .some (hrefl a)

/-- what is found under a key, when the value of one key changes -/
theorem lookup_rel_of_member (hrefl : ∀ a, R a a) (h : k = key → R v w)
    (ms ns : List (String × Json)) :
    Option.Rel R ((ms ++ (key, v) :: ns).lookup k) ((ms ++ (key, w) :: ns).lookup k) := by
  induction ms with
  | nil =>
    rcases eq_or_ne k key with rfl | hne
    · rw [List.nil_append, List.nil_append, List.lookup_cons_self, List.lookup_cons_self]
      exact .some (h rfl)
    · rw [List.nil_append, List.nil_append, lookup_cons_of_ne hne, lookup_cons_of_ne hne]
      exact rel_of_eq hrefl rfl
  | cons m ms ih =>
    obtain ⟨mkey, u⟩ := m
    rw [List.cons_append, List.cons_append]
    rcases eq_or_ne k mkey with rfl | hne
    · rw [List.lookup_cons_self, List.lookup_cons_self]
      exact .some (hrefl u)
    · rw [lookup_cons_of_ne hne, lookup_cons_of_ne hne]
      exact ih

/-- what is found under a key, when one item changes -/
theorem lookup_zip_rel {xs ys : List Json} (h : List.Forall₂ R xs ys) (keys : List String) :
    Option.Rel R ((keys.zip xs).lookup k) ((keys.zip ys).lookup k) := by
  induction keys generalizing xs ys with
  | nil => exact .none
  | cons key keys ih =>
    cases h with
    | nil => exact .none
    | cons hv hvs =>
      rw [List.zip_cons_cons, List.zip_cons_cons]
      rcases eq_or_ne k key with rfl | hne
      · rw [List.lookup_cons_self, List.lookup_cons_self]
        exact .some hv
      · rw [lookup_cons_of_ne hne, lookup_cons_of_ne hne]
        exact ih hvs

end
end SavedFilter.Json
