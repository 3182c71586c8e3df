import Mathlib.Data.List.Forall2
import SavedFilter.Json.Reader
import SavedFilter.Proofs.Except

/-!
# Two readers of one text

A text may be read by two readers that build different things from it:

* `AgreeOn`          where both accept a text they leave the same rest, and their results belong
                     together;
* `agreeOn_items`, `agreeOn_members`   so do readers of lists that are made from such readers;
* `lookup_collapse`  of a repeated key the last value is found.
-/

namespace SavedFilter.Json
open Reader

section
variable {α β : Type}

/-- Where both readers accept a text they leave the same rest, and `P` holds of their results. -/
def AgreeOn (read : List Char → Except Fault (α × List Char))
    (read' : List Char → Except Fault (β × List Char)) (P : α → β → Prop) : Prop :=
  ∀ cs r r', read cs = .ok r → read' cs = .ok r' → r.2 = r'.2 ∧ P r.1 r'.1

theorem agreeOn_moreItems {read : List Char → Except Fault (α × List Char)}
    {read' : List Char → Except Fault (β × List Char)} {P : α → β → Prop}
    (h : AgreeOn read read' P) (n n' : Nat) {done : List α} {done' : List β}
    (hdone : List.Forall₂ P done done') :
    AgreeOn (moreItems read n done) (moreItems read' n' done') (List.Forall₂ P) := by
  intro cs r r' hr hr'
  induction n generalizing n' done done' cs with
  | zero => exact nomatch hr
  | succ n ih =>
    cases n' with
    | zero => exact nomatch hr'
    | succ n' =>
      obtain ⟨⟨v, ds⟩, hv, hr⟩ := bind_eq_ok.mp hr
      obtain ⟨⟨w, ds'⟩, hw, hr'⟩ := bind_eq_ok.mp hr'
      obtain ⟨hds, hP⟩ := h cs _ _ hv hw
      obtain rfl : ds = ds' := hds
      have hcons := List.Forall₂.cons hP hdone
      dsimp only at hr hr'
      split at hr
      · next es hes =>
        simp only [hes] at hr'
        exact ih n' hcons es hr hr'
      · next es hes =>
        simp only [hes] at hr'
        rw [← Except.ok.inj hr, ← Except.ok.inj hr']
        exact ⟨rfl, List.rel_reverse hcons⟩
      · exact nomatch hr

theorem agreeOn_items {read : List Char → Except Fault (α × List Char)}
    {read' : List Char → Except Fault (β × List Char)} {P : α → β → Prop}
    (h : AgreeOn read read' P) (n n' : Nat) :
    AgreeOn (items read n) (items read' n') (List.Forall₂ P) := by
  intro cs r r' hr hr'
  unfold items at hr hr'
  split at hr
  · next es hes =>
    simp only [hes] at hr'
    rw [← Except.ok.inj hr, ← Except.ok.inj hr']
    exact ⟨rfl, .nil⟩
  · next hne =>
    split at hr'
    · next es hes => exact absurd hes (hne es)
    · exact agreeOn_moreItems h n n' .nil _ _ _ hr hr'

/-- members with the same key whose values belong together -/
def MemberRel (P : String → α → β → Prop) (m : String × α) (m' : String × β) : Prop :=
  m.1 = m'.1 ∧ P m.1 m.2 m'.2

theorem agreeOn_moreMembers {readAt : String → List Char → Except Fault (α × List Char)}
    {readAt' : String → List Char → Except Fault (β × List Char)} {P : String → α → β → Prop}
    (h : ∀ k, AgreeOn (readAt k) (readAt' k) (P k)) (n n' : Nat) {done : List (String × α)}
    {done' : List (String × β)} (hdone : List.Forall₂ (MemberRel P) done done') :
    AgreeOn (moreMembers readAt n done) (moreMembers readAt' n' done')
      (List.Forall₂ (MemberRel P)) := by
  intro cs r r' hr hr'
  induction n generalizing n' done done' cs with
  | zero => exact nomatch hr
  | succ n ih =>
    cases n' with
    | zero => exact nomatch hr'
    | succ n' =>
      obtain ⟨⟨k, cs₁⟩, hk, hr⟩ := bind_eq_ok.mp hr
      obtain ⟨k', hk', hr'⟩ := bind_eq_ok.mp hr'
      obtain rfl := Except.ok.inj (hk.symm.trans hk')
      obtain ⟨⟨v, ds⟩, hv, hr⟩ := bind_eq_ok.mp hr
      obtain ⟨⟨w, ds'⟩, hw, hr'⟩ := bind_eq_ok.mp hr'
      obtain ⟨hds, hP⟩ := h k cs₁ _ _ hv hw
      obtain rfl : ds = ds' := hds
      have hcons : List.Forall₂ (MemberRel P) ((k, v) :: done) ((k, w) :: done') :=
        .cons ⟨rfl, hP⟩ hdone
      dsimp only at hr hr'
      split at hr
      · next es hes =>
        simp only [hes] at hr'
        exact ih n' hcons es hr hr'
      · next es hes =>
        simp only [hes] at hr'
        rw [← Except.ok.inj hr, ← Except.ok.inj hr']
        exact ⟨rfl, List.rel_reverse hcons⟩
      · exact nomatch hr

theorem agreeOn_members {readAt : String → List Char → Except Fault (α × List Char)}
    {readAt' : String → List Char → Except Fault (β × List Char)} {P : String → α → β → Prop}
    (h : ∀ k, AgreeOn (readAt k) (readAt' k) (P k)) (n n' : Nat) :
    AgreeOn (members readAt n) (members readAt' n') (List.Forall₂ (MemberRel P)) := by
  intro cs r r' hr hr'
  unfold members at hr hr'
  split at hr
  · next es hes =>
    simp only [hes] at hr'
    rw [← Except.ok.inj hr, ← Except.ok.inj hr']
    exact ⟨rfl, .nil⟩
  · next hne =>
    split at hr'
    · next es hes => exact absurd hes (hne es)
    · exact agreeOn_moreMembers h n n' .nil _ _ _ hr hr'

end

/-! ## keys that are looked up -/

theorem lookup_collapse {α : Type} (ms : List (String × α)) (k : String) :
    (collapse ms).lookup k = ((ms.filter (·.1 == k)).map (·.2)).getLast? := by
  have hfold : ∀ done : List (String × α),
      (ms.foldl (fun ms m => put ms m.1 m.2) done).lookup k =
        (((ms.filter (·.1 == k)).map (·.2)).getLast? <|> done.lookup k) := by
    induction ms with
    | nil => exact fun _ => rfl
    | cons m ms ih =>
      intro done
      rw [List.foldl_cons, ih, lookup_put]
      by_cases hk : m.1 = k
      · rw [if_pos hk.symm, List.filter_cons_of_pos (by simpa using hk), List.map_cons,
          List.getLast?_cons]
        cases ((ms.filter (·.1 == k)).map (·.2)).getLast? <;> rfl
      · rw [if_neg (Ne.symm hk), List.filter_cons_of_neg (by simpa using hk)]
  rw [collapse, hfold]
  cases ((ms.filter (·.1 == k)).map (·.2)).getLast? <;> rfl

end SavedFilter.Json
