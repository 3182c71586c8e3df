import SavedFilter.Proofs.Json.Agreement
import SavedFilter.Proofs.Json.Readable
import SavedFilter.Proofs.Json.Skip
import SavedFilter.Settings.File

/-!
# The settings in a file

The settings are read from the text of a file without building its value.  They are what stands in
that value at the places where they are looked for:

* `Json.part?`       what a section has under a name;
* `Holds`            a setting that may be absent or null, and what stands at its place;
* `agreeOn_section`, `agreeOn_member`   reading a section, and a member of the file;
* `holds_of_read`    the settings of a file are what stands at their places.
-/

namespace SavedFilter

/-- what a section has under a name; an array with one item has that item under every name -/
def Json.part? (name : String) : Json → Option Json
  | .obj ms => ms.lookup name
  | .arr [v] => some v
  | _ => none

namespace FileSettings
open Json Json.Reader

section
variable {α : Type}

/-- a setting is absent where nothing stands or null, and else `P` holds of it and what stands
there -/
def Holds (P : α → Json → Prop) : Option α → Option Json → Prop
  | o, .none => o = .none
  | .none, some v => v = .null
  | some a, some v => P a v

variable {read : List Char → Except Fault (α × List Char)} {P : α → Json → Prop}
  {fuel depth : Nat}

/-! ## one setting -/

theorem eq_of_word {w cs : List Char} {a : α} {v : Json} {r : α × List Char}
    {r' : Json × List Char} (h : (word w cs).map (a, ·) = .ok r)
    (h' : (word w cs).map (v, ·) = .ok r') : r.2 = r'.2 ∧ r.1 = a ∧ r'.1 = v := by
  obtain ⟨rest, hrest, rfl⟩ := map_eq_ok.mp h
  obtain ⟨rest', hrest', rfl⟩ := map_eq_ok.mp h'
  exact ⟨Except.ok.inj (hrest.symm.trans hrest'), rfl, rfl⟩

theorem agreeOn_nullable (h : AgreeOn read (value fuel depth) P) :
    AgreeOn (nullable read) (value fuel depth) fun o v => Holds P o (some v) := by
  intro cs r r' hr hr'
  rw [← value_skipSpace] at hr'
  unfold nullable at hr
  split at hr
  · cases hr
  · next c ds hs =>
    rw [hs] at hr'
    split_ifs at hr with hc
    · subst hc
      rw [value_scalar rfl (by decide) (by decide)] at hr'
      obtain ⟨hrest, hnone, hnull⟩ := eq_of_word hr hr'
      exact ⟨hrest, hnone ▸ hnull⟩
    · obtain ⟨p, hp, rfl⟩ := map_eq_ok.mp hr
      exact h (c :: ds) p r' hp hr'

theorem agreeOn_textSetting :
    AgreeOn textSetting (value fuel depth) fun s v => v = .str s := by
  intro cs r r' hr hr'
  unfold textSetting at hr
  split at hr
  · rw [value_scalar rfl (by decide) (by decide)] at hr'
    obtain ⟨p, hp, rfl⟩ := map_eq_ok.mp hr'
    obtain rfl := Except.ok.inj (hr.symm.trans hp)
    exact ⟨rfl, rfl⟩
  · cases hr

theorem agreeOn_boolSetting :
    AgreeOn boolSetting (value fuel depth) fun b v => v = .bool b := by
  intro cs r r' hr hr'
  unfold boolSetting at hr
  split at hr
  case h_3 => cases hr
  all_goals
    rw [value_scalar rfl (by decide) (by decide)] at hr'
    obtain ⟨hrest, hbool, hvalue⟩ := eq_of_word hr hr'
    exact ⟨hrest, hbool ▸ hvalue⟩

/-! ## the only one of several -/

theorem atMostOne_eq_ok {os : List (Option α)} {o : Option α} (h : atMostOne os = .ok o) :
    os = [] ∧ o = .none ∨ os = [o] := by
  unfold atMostOne at h
  split at h
  · exact .inl ⟨rfl, (Except.ok.inj h).symm⟩
  · rw [Except.ok.inj h]
    exact .inr rfl
  · cases h

/-- what is picked from some members by their key belongs to what stands under that key -/
theorem forall₂_picked {β : Type} {k : String} {pick : β → Option (Option α)}
    {Q : String → β → Json → Prop} {R : Option α → Json → Prop}
    (hk : ∀ b v, Q k b v → ∃ o, pick b = some o ∧ R o v)
    (hother : ∀ k' b v, k' ≠ k → Q k' b v → pick b = .none) {ms : List (String × β)}
    {ms' : List (String × Json)} (hms : List.Forall₂ (MemberRel Q) ms ms') :
    List.Forall₂ R (ms.filterMap (pick ·.2)) ((ms'.filter (·.1 == k)).map (·.2)) := by
  induction hms with
  | nil => exact .nil
  | @cons m m' ms ms' hm _ ih =>
    obtain ⟨hkey, hQ⟩ := hm
    by_cases h : m.1 = k
    · rw [h] at hQ
      obtain ⟨o, hpick, hR⟩ := hk _ _ hQ
      have hleft : (m :: ms).filterMap (pick ·.2) = o :: ms.filterMap (pick ·.2) :=
        List.filterMap_cons_some hpick
      rw [hleft, List.filter_cons_of_pos (by simp [← hkey, h])]
      exact .cons hR ih
    · have hleft : (m :: ms).filterMap (pick ·.2) = ms.filterMap (pick ·.2) :=
        List.filterMap_cons_none (hother _ _ _ h hQ)
      rw [hleft, List.filter_cons_of_neg (by simpa [← hkey] using h)]
      exact ih

/-- if one value is picked at most, it is what stands at a place of the value found under the key -/
theorem holds_of_atMostOne {β : Type} (k : String) (pick : β → Option (Option α))
    (place : Json → Option Json) {Q : String → β → Json → Prop}
    (hk : ∀ b v, Q k b v → ∃ o, pick b = some o ∧ Holds P o (place v))
    (hother : ∀ k' b v, k' ≠ k → Q k' b v → pick b = .none) {ms : List (String × β)}
    {ms' : List (String × Json)} (hms : List.Forall₂ (MemberRel Q) ms ms') {o : Option α}
    (ho : atMostOne (ms.filterMap (pick ·.2)) = .ok o) :
    Holds P o (((collapse ms').lookup k).bind place) := by
  have hpicked := forall₂_picked hk hother hms
  rw [lookup_collapse]
  rcases atMostOne_eq_ok ho with ⟨hnil, rfl⟩ | hone
  · rw [hnil] at hpicked
    rw [List.forall₂_nil_left_iff.mp hpicked]
    rfl
  · rw [hone] at hpicked
    obtain ⟨v, vs, hR, hvs, heq⟩ := List.forall₂_cons_left_iff.mp hpicked
    rw [heq, List.forall₂_nil_left_iff.mp hvs]
    exact hR

/-! ## sections -/

theorem agreeOn_setting (h : AgreeOn read (value fuel depth) P) (name key : String) :
    AgreeOn (setting name read key) (value fuel depth) fun b v =>
      if key = name then ∃ o, b = some o ∧ Holds P o (some v) else b = .none := by
  intro cs r r' hr hr'
  unfold setting at hr
  by_cases hkey : key = name
  · rw [if_pos hkey] at hr
    obtain ⟨p, hp, rfl⟩ := map_eq_ok.mp hr
    obtain ⟨hrest, hP⟩ := agreeOn_nullable h cs p r' hp hr'
    exact ⟨hrest, (if_pos hkey).mpr ⟨p.1, rfl, hP⟩⟩
  · rw [if_neg hkey] at hr
    obtain ⟨rest, hrest, rfl⟩ := map_eq_ok.mp hr
    have hskip := Skip.value_of_value hr'
    exact ⟨Except.ok.inj (hrest.symm.trans hskip), (if_neg hkey).mpr rfl⟩

/-- a section is an object or an array, and its setting is the part with the name -/
theorem agreeOn_section (h : AgreeOn read (value fuel depth) P) (name : String) :
    AgreeOn (sectionOf fuel name read) (value fuel (depth + 1)) fun o v =>
      Holds P o (v.part? name) := by
  intro cs r r' hr hr'
  unfold sectionOf at hr
  split at hr
  · next cs =>
    rw [value, skipSpace_cons rfl] at hr'
    obtain ⟨⟨found, rest⟩, hfound, hr⟩ := bind_eq_ok.mp hr
    obtain ⟨o, ho, hr⟩ := bind_eq_ok.mp hr
    obtain ⟨⟨ms, rest'⟩, hms, rfl⟩ := map_eq_ok.mp hr'
    obtain ⟨hrest, hmembers⟩ :=
      agreeOn_members (agreeOn_setting h name) fuel fuel cs _ _ hfound hms
    rw [← Except.ok.inj hr]
    refine ⟨hrest, ?_⟩
    have hholds := holds_of_atMostOne name id some
      (fun b v hb => (if_pos rfl).mp hb) (fun k b v hk hb => (if_neg hk).mp hb) hmembers ho
    rwa [Option.bind_fun_some] at hholds
  · next cs =>
    rw [value, skipSpace_cons rfl] at hr'
    obtain ⟨⟨found, rest⟩, hfound, hr⟩ := bind_eq_ok.mp hr
    obtain ⟨⟨vs, rest'⟩, hvs, rfl⟩ := map_eq_ok.mp hr'
    obtain ⟨hrest, hitems⟩ := agreeOn_items (agreeOn_nullable h) fuel fuel cs _ _ hfound hvs
    dsimp only at hr hrest hitems
    split at hr
    · next o =>
      obtain ⟨v, vs, hv, hnil, rfl⟩ := List.forall₂_cons_left_iff.mp hitems
      rw [List.forall₂_nil_left_iff.mp hnil, ← Except.ok.inj hr]
      exact ⟨hrest, hv⟩
    · cases hr
  · cases hr

/-! ## the file -/

/-- what a member of the file is, by what stands under its key -/
def IsMember (key : String) (m : Member) (v : Json) : Prop :=
  if key = "compiler" then
    ∃ token, m = .compiler token ∧ Holds (fun s w => w = .str s) token.join (v.part? "comparison")
  else if key = "output" then
    ∃ pretty, m = .output pretty ∧ Holds (fun b w => w = .bool b) pretty.join (v.part? "pretty")
  else m = .unknown

section
variable {key : String} {m : Member} {v : Json}

theorem IsMember.token?_eq_none (h : IsMember key m v) (hkey : key ≠ "compiler") :
    m.token? = .none := by
  rw [IsMember, if_neg hkey] at h
  split_ifs at h
  · obtain ⟨pretty, rfl, -⟩ := h
    rfl
  · rw [h]
    rfl

theorem IsMember.pretty?_eq_none (h : IsMember key m v) (hkey : key ≠ "output") :
    m.pretty? = .none := by
  rw [IsMember, if_neg hkey] at h
  split_ifs at h
  · obtain ⟨token, rfl, -⟩ := h
    rfl
  · rw [h]
    rfl

end

/-- a section that is null has nothing under any name -/
theorem holds_join {name : String} {o : Option (Option α)} {v : Json}
    (h : Holds (fun o v => Holds P o (v.part? name)) o (some v)) :
    Holds P o.join (v.part? name) := by
  cases o with
  | none =>
    obtain rfl : v = .null := h
    rfl
  | some o => exact h

theorem agreeOn_member (key : String) :
    AgreeOn (member fuel key) (value fuel (maxNesting - 1)) (IsMember key) := by
  intro cs r r' hr hr'
  unfold member at hr
  unfold IsMember
  split_ifs at hr ⊢ with hcompiler houtput
  · obtain ⟨p, hp, rfl⟩ := map_eq_ok.mp hr
    obtain ⟨hrest, hP⟩ :=
      agreeOn_nullable (agreeOn_section agreeOn_textSetting "comparison") cs p r' hp hr'
    exact ⟨hrest, p.1, rfl, holds_join hP⟩
  · obtain ⟨p, hp, rfl⟩ := map_eq_ok.mp hr
    obtain ⟨hrest, hP⟩ :=
      agreeOn_nullable (agreeOn_section agreeOn_boolSetting "pretty") cs p r' hp hr'
    exact ⟨hrest, p.1, rfl, holds_join hP⟩
  · obtain ⟨p, hp, rfl⟩ := map_eq_ok.mp hr
    obtain rfl := Except.ok.inj (hp.symm.trans hr')
    exact ⟨rfl, rfl⟩

end

/-- **The settings of a file are what stands at their places**, if its text is JSON. -/
theorem holds_of_read {cs : List Char} {f : FileSettings} {v : Json} (hread : read cs = .ok f)
    (hv : Json.parse cs = .ok v) :
    Holds (fun s w => w = .str s) f.token ((v.get? "compiler").bind (Json.part? "comparison")) ∧
      Holds (fun b w => w = .bool b) f.pretty ((v.get? "output").bind (Json.part? "pretty")) := by
  unfold read at hread
  split at hread
  · next rest hrest =>
    obtain ⟨found, hfound, hread⟩ := bind_eq_ok.mp hread
    obtain ⟨p, hp, hend⟩ := bind_eq_ok.mp hfound
    obtain ⟨token, htoken, hread⟩ := bind_eq_ok.mp hread
    obtain ⟨pretty, hpretty, hread⟩ := bind_eq_ok.mp hread
    obtain rfl := Except.ok.inj hread
    obtain ⟨q, hq, hend'⟩ := bind_eq_ok.mp hv
    change value (cs.length + 1) (maxNesting - 1 + 1) cs = .ok q at hq
    rw [value, hrest] at hq
    obtain ⟨ms, hms, rfl⟩ := map_eq_ok.mp hq
    obtain ⟨-, hmembers⟩ := agreeOn_members agreeOn_member _ _ rest p ms hp hms
    rw [← eq_of_atEnd hend] at htoken hpretty
    rw [← eq_of_atEnd hend']
    refine ⟨holds_of_atMostOne "compiler" Member.token? _ ?_ ?_ hmembers htoken,
      holds_of_atMostOne "output" Member.pretty? _ ?_ ?_ hmembers hpretty⟩
    · rintro m v ⟨token, rfl, h⟩
      exact ⟨_, rfl, h⟩
    · exact fun k m v hk hm => hm.token?_eq_none hk
    · rintro m v ⟨pretty, rfl, h⟩
      exact ⟨_, rfl, h⟩
    · exact fun k m v hk hm => hm.pretty?_eq_none hk
  · cases hread

end FileSettings
end SavedFilter
