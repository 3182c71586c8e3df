import SavedFilter.Proofs.Except
import SavedFilter.Proofs.Json.RoundTrip

/-!
# What is read can be written

A text is read as a value that has a text itself: its integers fit 64 bits, its doubles are finite,
and every object has each key once, because a key that is repeated is put into its first place.

* `forall_of_items`, `forall_of_members`   what holds of all that a reader gives holds of all items
                                           and members that it is used for;
* `keys_collapse`, `nodup_collapse`   collapsed members have every key once;
* `writable_of_parse`    a value that has been read is `Writable`.
-/

namespace SavedFilter.Json
open Text Binary64 Reader

/-! ## members without repeated keys -/

section
variable {α : Type}

theorem keys_put (ms : List (String × α)) (key : String) (v : α) :
    (put ms key v).map Prod.fst =
      if key ∈ ms.map Prod.fst then ms.map Prod.fst else ms.map Prod.fst ++ [key] := by
  induction ms with
  | nil => rfl
  | cons m ms ih =>
    rw [put]
    by_cases hm : m.1 = key
    · simp [hm]
    · rw [if_neg hm, List.map_cons, ih, List.map_cons]
      by_cases hk : key ∈ ms.map Prod.fst
      · rw [if_pos hk, if_pos (List.mem_cons_of_mem _ hk)]
      · rw [if_neg hk, if_neg (List.not_mem_cons_of_ne_of_not_mem (Ne.symm hm) hk)]
        rfl

/-- collapsed members have every key once, in the order of first appearance -/
theorem keys_collapse (ms : List (String × α)) :
    (collapse ms).map Prod.fst = (ms.map Prod.fst).eraseDups := by
  induction ms using List.reverseRecOn with
  | nil => rfl
  | append_singleton ms m ih =>
    have hput : collapse (ms ++ [m]) = put (collapse ms) m.1 m.2 := List.foldl_concat ..
    rw [hput, keys_put, ih, List.map_append, List.eraseDups_append]
    by_cases hm : m.1 ∈ ms.map Prod.fst
    · rw [if_pos (List.mem_eraseDups.mpr hm)]
      simp [List.removeAll, hm]
    · rw [if_neg (mt List.mem_eraseDups.mp hm)]
      simp [List.removeAll, List.eraseDups_cons, hm]

theorem nodup_put {ms : List (String × α)} (h : (ms.map Prod.fst).Nodup) (key : String) (v : α) :
    ((put ms key v).map Prod.fst).Nodup := by
  rw [keys_put]
  split_ifs with hk
  · exact h
  · refine List.nodup_append.mpr ⟨h, List.pairwise_singleton _ key, ?_⟩
    rintro k hm k' hk' rfl
    exact hk (List.mem_singleton.mp hk' ▸ hm)

theorem nodup_collapse (ms : List (String × α)) : ((collapse ms).map Prod.fst).Nodup := by
  have hfold : ∀ done : List (String × α), (done.map Prod.fst).Nodup →
      ((ms.foldl (fun ms m => put ms m.1 m.2) done).map Prod.fst).Nodup := by
    induction ms with
    | nil => exact fun _ h => h
    | cons m ms ih => exact fun done h => ih _ (nodup_put h m.1 m.2)
  exact hfold [] List.nodup_nil

section
variable {P : α → Prop}

theorem forall_put {ms : List (String × α)} (h : ∀ m ∈ ms, P m.2) (key : String) {v : α}
    (hv : P v) : ∀ m ∈ put ms key v, P m.2 := by
  induction ms with
  | nil => exact List.forall_mem_singleton.mpr hv
  | cons m ms ih =>
    obtain ⟨hm, hms⟩ := List.forall_mem_cons.mp h
    rw [put]
    split_ifs
    · exact List.forall_mem_cons.mpr ⟨hv, hms⟩
    · exact List.forall_mem_cons.mpr ⟨hm, ih hms⟩

theorem forall_collapse {ms : List (String × α)} (h : ∀ m ∈ ms, P m.2) :
    ∀ m ∈ collapse ms, P m.2 := by
  have hfold : ∀ done : List (String × α), (∀ m ∈ done, P m.2) →
      ∀ m ∈ ms.foldl (fun ms m => put ms m.1 m.2) done, P m.2 := by
    induction ms with
    | nil => exact fun _ hd => hd
    | cons m ms ih =>
      obtain ⟨hm, hms⟩ := List.forall_mem_cons.mp h
      exact fun done hd => ih hms _ (forall_put hd m.1 hm)
  exact hfold [] (List.forall_mem_nil _)

/-! ## items and members that are read -/

theorem forall_of_moreItems {read : List Char → Except Fault (α × List Char)}
    (h : ∀ cs r, read cs = .ok r → P r.1) {fuel : Nat} {done : List α} {cs : List Char}
    {r : List α × List Char} (hd : ∀ v ∈ done, P v) (hr : moreItems read fuel done cs = .ok r) :
    ∀ v ∈ r.1, P v := by
  induction fuel generalizing done cs with
  | zero => cases hr
  | succ fuel ih =>
    rw [moreItems] at hr
    obtain ⟨⟨v, ds⟩, hv, hr⟩ := bind_eq_ok.mp hr
    have hdone : ∀ w ∈ v :: done, P w := List.forall_mem_cons.mpr ⟨h cs _ hv, hd⟩
    dsimp only at hr
    split at hr
    · exact ih hdone hr
    · rw [← Except.ok.inj hr]
      exact fun w hw => hdone w (List.mem_reverse.mp hw)
    · cases hr

theorem forall_of_items {read : List Char → Except Fault (α × List Char)}
    (h : ∀ cs r, read cs = .ok r → P r.1) {fuel : Nat} {cs : List Char}
    {r : List α × List Char} (hr : items read fuel cs = .ok r) : ∀ v ∈ r.1, P v := by
  rw [items] at hr
  split at hr
  · rw [← Except.ok.inj hr]
    exact List.forall_mem_nil _
  · exact forall_of_moreItems h (List.forall_mem_nil _) hr

theorem forall_of_moreMembers {readAt : String → List Char → Except Fault (α × List Char)}
    (h : ∀ k cs r, readAt k cs = .ok r → P r.1) {fuel : Nat} {done : List (String × α)}
    {cs : List Char} {r : List (String × α) × List Char} (hd : ∀ m ∈ done, P m.2)
    (hr : moreMembers readAt fuel done cs = .ok r) : ∀ m ∈ r.1, P m.2 := by
  induction fuel generalizing done cs with
  | zero => cases hr
  | succ fuel ih =>
    rw [moreMembers] at hr
    obtain ⟨⟨k, ds⟩, -, hr⟩ := bind_eq_ok.mp hr
    obtain ⟨⟨v, ds'⟩, hv, hr⟩ := bind_eq_ok.mp hr
    have hdone : ∀ m ∈ (k, v) :: done, P m.2 := List.forall_mem_cons.mpr ⟨h k ds _ hv, hd⟩
    dsimp only at hr
    split at hr
    · exact ih hdone hr
    · rw [← Except.ok.inj hr]
      exact fun m hm => hdone m (List.mem_reverse.mp hm)
    · cases hr

theorem forall_of_members {readAt : String → List Char → Except Fault (α × List Char)}
    (h : ∀ k cs r, readAt k cs = .ok r → P r.1) {fuel : Nat} {cs : List Char}
    {r : List (String × α) × List Char} (hr : members readAt fuel cs = .ok r) :
    ∀ m ∈ r.1, P m.2 := by
  rw [members] at hr
  split at hr
  · rw [← Except.ok.inj hr]
    exact List.forall_mem_nil _
  · exact forall_of_moreMembers h (List.forall_mem_nil _) hr

end

end

/-! ## numbers that are read -/

theorem isFinite_ofMagnitude (negative : Bool) {b : Nat} (h : b < infinite) :
    (ofMagnitude negative b).isFinite = true := by
  have hinf : infinite < signWeight := by decide
  have hmag : (ofMagnitude negative b).magnitude = b := by
    have hsize : (2 : Nat) ^ 64 = signWeight + signWeight := by decide
    unfold magnitude ofMagnitude
    rw [UInt64.toNat_ofNat', hsize]
    cases negative with
    | true =>
      have hfit : signWeight + b < signWeight + signWeight := by omega
      rw [if_pos rfl, Nat.mod_eq_of_lt hfit, Nat.add_mod_left, Nat.mod_eq_of_lt (h.trans hinf)]
    | false =>
      have hfit : b < signWeight + signWeight := by omega
      rw [if_neg Bool.false_ne_true, Nat.mod_eq_of_lt hfit, Nat.mod_eq_of_lt (h.trans hinf)]
  rw [isFinite, hmag]
  exact decide_eq_true h

theorem Numeral.writable_value? {n : Numeral} {v : Json} (h : n.value? = some v) : v.Writable := by
  rw [value?] at h
  cases hi : n.int? with
  | some i =>
    rw [hi] at h
    rw [← Option.some.inj h]
    show -0x8000000000000000 ≤ i ∧ i < 0x10000000000000000
    unfold int? at hi
    dsimp only at hi
    have hsize : UInt64.size = 0x10000000000000000 := rfl
    split_ifs at hi
    · obtain rfl := Option.some.inj hi
      omega
    · obtain rfl := Option.some.inj hi
      omega
  | none =>
    rw [hi] at h
    obtain ⟨x, hx, rfl⟩ := Option.map_eq_some_iff.mp h
    show x.isFinite = true
    unfold double? ofScientific? at hx
    dsimp only at hx
    split_ifs at hx with _ hlt hlt
    · exact Option.some.inj hx ▸ isFinite_ofMagnitude _ hlt
    · exact Option.some.inj hx ▸ isFinite_ofMagnitude _ hlt

theorem writable_of_number {negative : Bool} {cs : List Char} {r : Json × List Char}
    (h : number negative cs = .ok r) : r.1.Writable := by
  rw [number] at h
  obtain ⟨⟨n, ds⟩, -, h⟩ := bind_eq_ok.mp h
  dsimp only at h
  split at h
  · next v hv =>
    rw [← Except.ok.inj h]
    exact Numeral.writable_value? hv
  · cases h

/-! ## values that are read -/

theorem writable_of_scalar {c : Char} {cs : List Char} {r : Json × List Char}
    (h : scalar c cs = .ok r) : r.1.Writable := by
  unfold scalar at h
  split_ifs at h
  · obtain ⟨s, -, rfl⟩ := map_eq_ok.mp h
    trivial
  · exact writable_of_number h
  · exact writable_of_number h
  · obtain ⟨ds, -, rfl⟩ := map_eq_ok.mp h
    trivial
  · obtain ⟨ds, -, rfl⟩ := map_eq_ok.mp h
    trivial
  · obtain ⟨ds, -, rfl⟩ := map_eq_ok.mp h
    trivial

theorem allWritable_iff {vs : List Json} : AllWritable vs ↔ ∀ v ∈ vs, v.Writable := by
  induction vs with
  | nil => exact iff_of_true trivial (List.forall_mem_nil _)
  | cons v vs ih => rw [AllWritable, ih, List.forall_mem_cons]

theorem membersWritable_iff {ms : List (String × Json)} :
    MembersWritable ms ↔ ∀ m ∈ ms, m.2.Writable := by
  induction ms with
  | nil => exact iff_of_true trivial (List.forall_mem_nil _)
  | cons m ms ih => rw [MembersWritable, ih, List.forall_mem_cons]

theorem writable_of_value {fuel depth : Nat} {cs : List Char} {r : Json × List Char}
    (h : value fuel depth cs = .ok r) : r.1.Writable := by
  induction depth generalizing cs r with
  | zero =>
    rw [value] at h
    split at h
    · cases h
    · split_ifs at h
      exact writable_of_scalar h
  | succ depth ih =>
    rw [value] at h
    split at h
    · cases h
    · split_ifs at h
      · obtain ⟨p, hp, rfl⟩ := map_eq_ok.mp h
        exact allWritable_iff.mpr (forall_of_items (fun _ _ hv => ih hv) hp)
      · obtain ⟨p, hp, rfl⟩ := map_eq_ok.mp h
        have hp := forall_of_members (P := Writable) (fun _ _ _ hv => ih hv) hp
        exact ⟨nodup_collapse p.1, membersWritable_iff.mpr (forall_collapse hp)⟩
      · exact writable_of_scalar h

theorem eq_of_atEnd {α : Type} {r : α × List Char} {a : α} (h : atEnd r = .ok a) : r.1 = a := by
  unfold atEnd at h
  split_ifs at h
  exact Except.ok.inj h

theorem isSpace_of_atEnd {α : Type} {r : α × List Char} {a : α} (h : atEnd r = .ok a) :
    ∀ c ∈ r.2, isSpace c = true := by
  unfold atEnd at h
  split_ifs at h with hend
  exact List.dropWhile_eq_nil_iff.mp (List.isEmpty_iff.mp hend)

theorem atEnd_of_isSpace {α : Type} {r : α × List Char} (h : ∀ c ∈ r.2, isSpace c = true) :
    atEnd r = .ok r.1 :=
  if_pos (List.isEmpty_iff.mpr (List.dropWhile_eq_nil_iff.mpr h))

/-- **What is read can be written**: every value that a text is read as has a text of its own. -/
theorem writable_of_parse {cs : List Char} {v : Json} (h : parse cs = .ok v) : v.Writable := by
  obtain ⟨r, hr, hend⟩ := bind_eq_ok.mp h
  exact eq_of_atEnd hend ▸ writable_of_value hr

end SavedFilter.Json
