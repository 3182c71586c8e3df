import Mathlib.Data.List.SplitLengths
import SavedFilter.Guid.Reader
import SavedFilter.Proofs.Text.Digits

/-!
# Identifiers that are read back

The groups of the text are found again between its hyphens (`groups_grouped`), and together they
are the digits of the identifier (`read_text`).
-/

namespace SavedFilter.Guid
open Text

theorem grouped_eq_intercalate {sizes : List Nat} {ds : List Char} (h : sizes.sum = ds.length) :
    grouped sizes ds = ['-'].intercalate (sizes.splitLengths ds) := by
  induction sizes generalizing ds with
  | nil =>
    rw [List.sum_nil] at h
    rw [List.length_eq_zero_iff.mp h.symm]
    rfl
  | cons n sizes ih =>
    rw [List.sum_cons] at h
    cases sizes with
    | nil =>
      have hn : ds.length ≤ n := by
        rw [List.sum_nil] at h
        omega
      rw [grouped, List.splitLengths_cons, List.splitLengths_nil, List.intercalate_singleton,
        List.take_of_length_le hn]
    | cons m sizes =>
      have hrest : (m :: sizes).sum = (ds.drop n).length := by
        rw [List.length_drop]
        omega
      rw [grouped, ih hrest]
      · simp only [List.splitLengths_cons, List.intercalate_cons_cons, List.append_assoc,
          List.singleton_append]
      · exact List.cons_ne_nil _ _

section
variable {ds : List Char} (hlen : ds.length = groupSizes.sum) (hhex : ∀ c ∈ ds, isHex c = true)
include hlen hhex

theorem groups_grouped : groups (grouped groupSizes ds) = groupSizes.splitLengths ds := by
  have hne : groupSizes.splitLengths ds ≠ [] :=
    List.ne_nil_of_length_pos (by rw [List.length_splitLengths]; decide)
  have hflatten := List.flatten_splitLengths ds groupSizes hlen.le
  rw [groups, grouped_eq_intercalate hlen.symm]
  apply List.splitOn_intercalate '-' _ hne
  intro group hg hc
  have hmem : '-' ∈ ds := hflatten ▸ List.mem_flatten.mpr ⟨group, hg, hc⟩
  exact absurd (hhex _ hmem) (by decide)

theorem digits?_grouped : digits? (grouped groupSizes ds) = some ds := by
  have hgroups := groups_grouped hlen hhex
  have hflatten := List.flatten_splitLengths ds groupSizes hlen.le
  have hsizes := List.map_splitLengths_length ds groupSizes hlen.ge
  have hbare : bare? (grouped groupSizes ds) = none := by
    apply if_neg
    intro h
    have hsum : groupSizes.sum = 32 := rfl
    have := h.1
    simp only [groupSizes, grouped, List.length_append, List.length_cons, List.length_take,
      List.length_drop] at this
    omega
  have hyphenated : hyphenated? (grouped groupSizes ds) = some ds := by
    rw [hyphenated?, hgroups, hflatten, if_pos ⟨hsizes, List.all_eq_true.mpr hhex⟩]
  rw [digits?, hbare, hyphenated]
  rfl

end

/-- **The text of an identifier is read as that identifier.** -/
theorem read_text (g : Guid) : read g.text = .ok g := by
  have hdigits := digits?_grouped (length_hex 32 g.value) fun _ => isHex_of_mem_hex
  have hvalue : ofHex (hex 32 g.value) = g.value := by
    rw [ofHex_hex]
    exact Nat.mod_eq_of_lt g.value_lt
  rw [read, text, hdigits]
  show Except.ok (ofNat (ofHex (hex 32 g.value))) = _
  rw [hvalue, ofNat_value]

end SavedFilter.Guid
