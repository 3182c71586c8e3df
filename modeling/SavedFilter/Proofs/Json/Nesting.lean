import SavedFilter.Proofs.Json.Readable

/-!
# The limit of the nesting

A reader is told how many levels of arrays and objects it may open.  With fewer levels it gives the
same result, or it refuses the text as malformed, so the limit decides nothing else:

* `nestingOfAll_le_iff`   a list is nested as deeply as its deepest item;
* `nesting_of_value`      what is read is not nested more deeply than was allowed;
* `sameOrMalformed_value`   fewer levels give the same result, or a refusal;
* `parseWithin_text`, `parseWithin_compactText`   the text of a value is read just where its nesting
                          is allowed.
-/

namespace SavedFilter.Json
open Reader Text

/-! ## how deeply a value is nested -/

theorem nestingOfAll_le_iff {vs : List Json} {n : Nat} :
    nestingOfAll vs ≤ n ↔ ∀ v ∈ vs, v.nesting ≤ n := by
  induction vs with
  | nil => exact iff_of_true (Nat.zero_le n) (List.forall_mem_nil _)
  | cons v vs ih => rw [nestingOfAll, max_le_iff, ih, List.forall_mem_cons]

theorem nestingOfMembers_le_iff {ms : List (String × Json)} {n : Nat} :
    nestingOfMembers ms ≤ n ↔ ∀ m ∈ ms, m.2.nesting ≤ n := by
  induction ms with
  | nil => exact iff_of_true (Nat.zero_le n) (List.forall_mem_nil _)
  | cons m ms ih => rw [nestingOfMembers, max_le_iff, ih, List.forall_mem_cons]

theorem nesting_of_number {negative : Bool} {cs : List Char} {r : Json × List Char}
    (h : number negative cs = .ok r) : r.1.nesting = 0 := by
  rw [number] at h
  obtain ⟨⟨n, ds⟩, -, h⟩ := bind_eq_ok.mp h
  dsimp only at h
  split at h
  · next v hv =>
    rw [← Except.ok.inj h]
    rw [Numeral.value?] at hv
    split at hv
    · rw [← Option.some.inj hv]
      rfl
    · obtain ⟨x, -, rfl⟩ := Option.map_eq_some_iff.mp hv
      rfl
  · cases h

theorem nesting_of_scalar {c : Char} {cs : List Char} {r : Json × List Char}
    (h : scalar c cs = .ok r) : r.1.nesting = 0 := by
  unfold scalar at h
  split_ifs at h
  · obtain ⟨s, -, rfl⟩ := map_eq_ok.mp h
    rfl
  · exact nesting_of_number h
  · exact nesting_of_number h
  · obtain ⟨ds, -, rfl⟩ := map_eq_ok.mp h
    rfl
  · obtain ⟨ds, -, rfl⟩ := map_eq_ok.mp h
    rfl
  · obtain ⟨ds, -, rfl⟩ := map_eq_ok.mp h
    rfl

/-- what is read opens no more levels than was allowed -/
theorem nesting_of_value {fuel depth : Nat} {cs : List Char} {r : Json × List Char}
    (h : value fuel depth cs = .ok r) : r.1.nesting ≤ depth := by
  induction depth generalizing cs r with
  | zero =>
    rw [value] at h
    split at h
    · cases h
    · split_ifs at h
      exact (nesting_of_scalar h).le
  | succ depth ih =>
    rw [value] at h
    split at h
    · cases h
    · split_ifs at h
      · obtain ⟨p, hp, rfl⟩ := map_eq_ok.mp h
        exact Nat.succ_le_succ (nestingOfAll_le_iff.mpr (forall_of_items (fun _ _ hv => ih hv) hp))
      · obtain ⟨p, hp, rfl⟩ := map_eq_ok.mp h
        have hms := forall_of_members (P := fun v : Json => v.nesting ≤ depth)
          (fun _ _ _ hv => ih hv) hp
        have hall := forall_collapse (P := fun v : Json => v.nesting ≤ depth) hms
        exact Nat.succ_le_succ (nestingOfMembers_le_iff.mpr hall)
      · exact (nesting_of_scalar h).trans_le (Nat.zero_le _)

/-! ## fewer levels -/

/-- the same result, or a refusal of the text as malformed -/
def SameOrMalformed {α : Type} (r r' : Except Fault α) : Prop := r = .error .malformed ∨ r = r'

namespace SameOrMalformed
variable {α β : Type} {r r' : Except Fault α}

theorem refl (r : Except Fault α) : SameOrMalformed r r := .inr rfl

theorem bind {f f' : α → Except Fault β} (h : SameOrMalformed r r')
    (hf : ∀ a, SameOrMalformed (f a) (f' a)) : SameOrMalformed (r >>= f) (r' >>= f') := by
  rcases h with rfl | rfl
  · exact .inl rfl
  · cases r with
    | error e => exact refl _
    | ok a => exact hf a

theorem map (f : α → β) (h : SameOrMalformed r r') : SameOrMalformed (r.map f) (r'.map f) := by
  rcases h with rfl | rfl
  · exact .inl rfl
  · exact refl _

end SameOrMalformed

section
variable {α : Type}

theorem sameOrMalformed_items {read read' : List Char → Except Fault (α × List Char)}
    (h : ∀ cs, SameOrMalformed (read cs) (read' cs)) (n : Nat) (cs : List Char) :
    SameOrMalformed (items read n cs) (items read' n cs) := by
  have hmore : ∀ done ds,
      SameOrMalformed (moreItems read n done ds) (moreItems read' n done ds) := by
    induction n with
    | zero => exact fun _ _ => .refl _
    | succ n ih =>
      intro done ds
      rw [moreItems, moreItems]
      apply (h ds).bind
      intro r
      dsimp only
      split
      · exact ih _ _
      · exact .refl _
      · exact .refl _
  rw [items, items]
  split
  · exact .refl _
  · exact hmore [] _

theorem sameOrMalformed_members {read read' : String → List Char → Except Fault (α × List Char)}
    (h : ∀ k cs, SameOrMalformed (read k cs) (read' k cs)) (n : Nat) (cs : List Char) :
    SameOrMalformed (members read n cs) (members read' n cs) := by
  have hmore : ∀ done ds,
      SameOrMalformed (moreMembers read n done ds) (moreMembers read' n done ds) := by
    induction n with
    | zero => exact fun _ _ => .refl _
    | succ n ih =>
      intro done ds
      rw [moreMembers, moreMembers]
      apply (SameOrMalformed.refl (key ds)).bind
      intro k
      apply (h k.1 k.2).bind
      intro r
      dsimp only
      split
      · exact ih _ _
      · exact .refl _
      · exact .refl _
  rw [members, members]
  split
  · exact .refl _
  · exact hmore [] _

end

theorem sameOrMalformed_value {fuel depth limit : Nat} (h : depth ≤ limit) (cs : List Char) :
    SameOrMalformed (value fuel depth cs) (value fuel limit cs) := by
  induction depth generalizing limit cs with
  | zero =>
    cases limit with
    | zero => exact .refl _
    | succ limit =>
      rw [value, value]
      split
      · exact .refl _
      · next c ds hds =>
        by_cases hopen : c = '[' ∨ c = '{'
        · rw [if_pos hopen]
          exact .inl rfl
        · obtain ⟨harr, hobj⟩ := not_or.mp hopen
          rw [if_neg hopen, if_neg harr, if_neg hobj]
          exact .refl _
  | succ depth ih =>
    obtain ⟨limit, rfl⟩ := Nat.exists_eq_add_one.mpr (Nat.lt_of_lt_of_le (Nat.succ_pos depth) h)
    have hread := ih (Nat.le_of_succ_le_succ h)
    rw [value, value]
    split
    · exact .refl _
    · split_ifs
      · exact (sameOrMalformed_items hread fuel _).map _
      · exact (sameOrMalformed_members (fun _ => hread) fuel _).map _
      · exact .refl _

/-! ## whole texts -/

/-- reading with a limit of its own on the nesting -/
def parseWithin (limit : Nat) (cs : List Char) : Except Fault Json :=
  value (cs.length + 1) limit cs >>= atEnd

theorem parse_eq_parseWithin (cs : List Char) : parse cs = parseWithin maxNesting cs := rfl

/-- **The text of a value is read just where its nesting is allowed**; with a lower limit it is
malformed. -/
theorem parseWithin_text (g : Gaps) (level : Nat) {v : Json} (hw : v.Writable) (limit : Nat) :
    parseWithin limit (g.text level v) =
      if v.nesting ≤ limit then .ok v else .error .malformed := by
  have hread : ∀ depth, v.nesting ≤ depth →
      value ((g.text level v).length + 1) depth (g.text level v) = .ok (v, []) := by
    intro depth hn
    have hv := value_text g ((g.text level v).length + 1) v level depth [] hw hn (Nat.le_succ _)
      stops_nil
    rwa [List.append_nil] at hv
  rw [parseWithin]
  split_ifs with hn
  · rw [hread limit hn]
    rfl
  · rcases sameOrMalformed_value (Nat.le_of_not_le hn) (g.text level v) with h | h
    · rw [h]
      rfl
    · -- then the limit would allow the nesting
      rw [hread v.nesting le_rfl] at h
      exact absurd (nesting_of_value h) hn

theorem parseWithin_compactText {v : Json} (hw : v.Writable) (limit : Nat) :
    parseWithin limit v.compactText.toList =
      if v.nesting ≤ limit then .ok v else .error .malformed := by
  rw [compactText, String.toList_ofList, ← Gaps.text_tight 0]
  exact parseWithin_text Gaps.tight 0 hw limit

end SavedFilter.Json
