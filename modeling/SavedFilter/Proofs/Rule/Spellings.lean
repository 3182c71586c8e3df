import SavedFilter.Proofs.Json.Records
import SavedFilter.Proofs.Rule.Copies
import SavedFilter.Proofs.Rule.Members

/-!
# Trees written as objects and as arrays

A rule is a record of its fields behind its kind, and the root is one without a kind.  Each may be
written as an object or as an array, whatever the rules around it are, and may leave out fields that
have their default.  All of these values are read as the same tree.

* `Rule.SpelledAs`, `Group.SpelledAs`   the values that are written for a tree;
* `Group.spelledAs_toJson`              the JSON that is saved is one of them;
* `Shape.readsAs_of_gives`              a field that is left out is what its default is read as;
* `Group.ofJson_spelledAs`              so a root is read as its canonical form;
* `Group.SpelledAs.writable`, `Group.SpelledAs.nesting_le`   each of them has a text, and is nested
                                        at most two levels deeper than twice the depth.
-/

namespace SavedFilter
open Json

/-! ## fields -/

/-- what may be left out -/
def fieldDefaults : List (String × Json) :=
  [("field", .str ""), ("operator", .str ""), ("value", .null), ("id", .null),
    ("logic", .str "and"), ("filters", .arr [])]

def tagValue : Option String → Json
  | none => .null
  | some t => .str t

def Condition.fields (c : Condition) : List (String × Json) :=
  [("field", .str c.field), ("operator", .str c.operator), ("value", c.value.envelope),
    ("id", tagValue c.tag)]

/-- the fields of a group, with what is written for its members -/
def groupFields (join : Join) (items : List Json) (tag : Option String) : List (String × Json) :=
  [("logic", .str join.keyword), ("filters", .arr items), ("id", tagValue tag)]

mutual

/-- The values that are written for a rule.  Each rule below it has its own form. -/
def Rule.SpelledAs : Rule → Json → Prop
  | .condition c, v => IsRecord fieldDefaults [("type", .str "filter")] c.fields v
  | .group join members tag, v => ∃ items, Rule.AllSpelledAs members items ∧
      IsRecord fieldDefaults [("type", .str "group")] (groupFields join items tag) v

def Rule.AllSpelledAs : List Rule → List Json → Prop
  | [], [] => True
  | r :: rs, v :: vs => r.SpelledAs v ∧ Rule.AllSpelledAs rs vs
  | _, _ => False

end

/-- the values that are written for a root -/
def Group.SpelledAs (g : Group) (v : Json) : Prop :=
  ∃ items, Rule.AllSpelledAs g.members items ∧
    IsRecord fieldDefaults [] (groupFields g.join items g.tag) v

section
variable (c : Condition) (join : Join) (items : List Json) (tag : Option String)

theorem Condition.nodup_fields (kind : String) :
    ((("type", Json.str kind) :: c.fields).map Prod.fst).Nodup := by
  show ["type", "field", "operator", "value", "id"].Nodup
  decide

theorem nodup_groupFields (kind : String) :
    ((("type", Json.str kind) :: groupFields join items tag).map Prod.fst).Nodup := by
  show ["type", "logic", "filters", "id"].Nodup
  decide

end

/-! ## what is saved is one of the spellings -/

theorem tagMember_sublist (t : Option String) :
    (Rule.tagMember t).Sublist [("id", tagValue t)] := by
  cases t with
  | none => exact List.nil_sublist _
  | some t => exact List.Sublist.refl _

/-- a tag that is not written is none -/
theorem mem_tagMember_or (t : Option String) :
    ("id", tagValue t) ∈ Rule.tagMember t ∨ ("id", tagValue t) ∈ fieldDefaults := by
  cases t with
  | none => exact .inr (by simp [fieldDefaults, tagValue])
  | some t => exact .inl List.mem_cons_self

theorem Condition.spelledAs_toJson (c : Condition) :
    (Rule.condition c).SpelledAs (Rule.condition c).toJson := by
  have hvalue : (if c.value.isNull then [] else [("value", c.value.envelope)]).Sublist
      [("value", c.value.envelope)] := by
    split
    · exact List.nil_sublist _
    · exact List.Sublist.refl _
  have hkept : c.members.Sublist c.fields :=
    ((hvalue.append (tagMember_sublist c.tag)).cons_cons _).cons_cons _
  refine .object hkept (fun m hm hnot => ?_) (List.Perm.refl _)
  rw [Condition.members, List.mem_cons, List.mem_cons, List.mem_append, not_or, not_or,
    not_or] at hnot
  obtain ⟨hfield, hoperator, hnone, htag⟩ := hnot
  rcases List.mem_cons.mp hm with rfl | hm
  · exact absurd rfl hfield
  rcases List.mem_cons.mp hm with rfl | hm
  · exact absurd rfl hoperator
  rcases List.mem_cons.mp hm with rfl | hm
  · cases hn : c.value.isNull with
    | true =>
      rw [(Scalar.isNull_iff c.value).mp hn]
      show ("value", Json.null) ∈ fieldDefaults
      simp [fieldDefaults]
    | false =>
      rw [hn] at hnone
      exact absurd List.mem_cons_self hnone
  · rw [List.mem_singleton.mp hm] at htag ⊢
    exact (mem_tagMember_or c.tag).resolve_left htag

/-- so is a group whose members are written as `items` -/
theorem isRecord_group (front : List (String × Json)) (join : Join) (items : List Json)
    (tag : Option String) :
    IsRecord fieldDefaults front (groupFields join items tag)
      (.obj (front ++ ("logic", .str join.keyword) :: ("filters", .arr items) ::
        Rule.tagMember tag)) := by
  refine .object (((tagMember_sublist tag).cons_cons _).cons_cons _) (fun m hm hnot => ?_)
    (List.Perm.refl _)
  rw [List.mem_cons, List.mem_cons, not_or, not_or] at hnot
  obtain ⟨hjoin, hfilters, htag⟩ := hnot
  rcases List.mem_cons.mp hm with rfl | hm
  · exact absurd rfl hjoin
  rcases List.mem_cons.mp hm with rfl | hm
  · exact absurd rfl hfilters
  · rw [List.mem_singleton.mp hm] at htag ⊢
    exact (mem_tagMember_or tag).resolve_left htag

mutual

theorem Rule.spelledAs_toJson : ∀ r : Rule, r.SpelledAs r.toJson
  | .condition c => c.spelledAs_toJson
  | .group join members tag =>
    ⟨Rule.toJsonAll members, Rule.allSpelledAs_toJsonAll members,
      isRecord_group [("type", .str "group")] join _ tag⟩

theorem Rule.allSpelledAs_toJsonAll : ∀ rs : List Rule, Rule.AllSpelledAs rs (Rule.toJsonAll rs)
  | [] => trivial
  | r :: rs => ⟨Rule.spelledAs_toJson r, Rule.allSpelledAs_toJsonAll rs⟩

end

theorem Group.spelledAs_toJson (g : Group) : g.SpelledAs g.toJson :=
  ⟨Rule.toJsonAll g.members, Rule.allSpelledAs_toJsonAll g.members,
    isRecord_group [] g.join _ g.tag⟩

/-! ## reading -/

namespace Shape

/-- A field that is left out is taken to be what its default is read as. -/
theorem readsAs_of_gives {α : Type} {read : Json → Except ShapeFault α} {absent x : α}
    {ms : List (String × Json)} {key : String} {v d : Json}
    (hd : fieldDefaults.lookup key = some d) (habsent : read d = .ok absent)
    (h : Gives fieldDefaults ms (key, v)) (hread : read v = .ok x) :
    ReadsAs read absent (ms.lookup key) x := by
  rcases h with h | ⟨h, hdefault⟩
  · rw [show ms.lookup key = some v from h]
    exact hread
  · have hv : fieldDefaults.lookup key = some v := lookup_of_mem (by decide) hdefault
    have hsame : d = v := Option.some.inj (hd.symm.trans hv)
    rw [show ms.lookup key = none from h]
    show x = absent
    rw [hsame, hread] at habsent
    exact Except.ok.inj habsent

theorem value_envelope (v : Scalar) : value v.envelope = .ok v.canonical := by
  rw [value, v.ofEnvelope_envelope]
  rfl

theorem join_keyword (inner : Bool) (j : Join) : join inner (.str j.keyword) = .ok j := by
  cases j <;> rfl

theorem tag_tagValue (t : Option String) : tag (tagValue t) = .ok t := by cases t <;> rfl

section
variable {ms : List (String × Json)} (hk : (ms.map Prod.fst).Nodup)
include hk

theorem conditionOfMembers_of_gives {c : Condition}
    (h : ∀ m ∈ c.fields, Gives fieldDefaults ms m) :
    conditionOfMembers .blank ms = .ok c.canonical := by
  obtain ⟨hfield, hoperator, hvalue, htag, -⟩ := by
    simpa only [Condition.fields, List.forall_mem_cons] using h
  exact (conditionOfMembers_eq_ok_iff hk).mpr
    ⟨readsAs_of_gives rfl rfl hfield rfl, readsAs_of_gives rfl rfl hoperator rfl,
      readsAs_of_gives rfl rfl hvalue (value_envelope c.value),
      readsAs_of_gives rfl rfl htag (tag_tagValue c.tag)⟩

theorem groupOfMembers_of_gives {inner : Bool} {join : Join} {items : List Json} {rs : List Rule}
    {tag : Option String} (hrules : rules inner items = .ok rs)
    (h : ∀ m ∈ groupFields join items tag, Gives fieldDefaults ms m) :
    groupOfMembers inner (.empty .and) ms = .ok ⟨join, rs, tag⟩ := by
  obtain ⟨hjoin, hfilters, htag, -⟩ := by
    simpa only [groupFields, List.forall_mem_cons] using h
  exact (groupOfMembers_eq_ok_iff hk).mpr
    ⟨readsAs_of_gives rfl rfl hjoin (join_keyword inner join),
      readsAs_of_gives rfl rfl hfilters hrules,
      readsAs_of_gives rfl rfl htag (tag_tagValue tag)⟩

end

theorem rule_condition {inner : Bool} {c : Condition} {v : Json}
    (h : (Rule.condition c).SpelledAs v) : rule inner v = .ok (.condition c.canonical) := by
  obtain ⟨ms, rfl, hk, -, hkind, hfields⟩ | ⟨items, rfl, hlong, hfields⟩ :=
    IsRecord.read (c.nodup_fields "filter") h
  · exact rule_obj_eq_ok_iff.mpr ⟨.str "filter", hkind _ List.mem_cons_self,
      .inl ⟨rfl, c.canonical, conditionOfMembers_of_gives hk hfields, rfl⟩⟩
  · have hk := nodup_zip (show conditionKeys.Nodup by decide) items
    exact rule_arr_eq_ok_iff.mpr
      (.inl ⟨rfl, hlong, c.canonical, conditionOfMembers_of_gives hk hfields, rfl⟩)

theorem rule_group {inner : Bool} {join : Join} {items : List Json} {rs : List Rule}
    {tag : Option String} {v : Json} (hrules : rules true items = .ok rs)
    (h : IsRecord fieldDefaults [("type", .str "group")] (groupFields join items tag) v) :
    rule inner v = .ok (.group join rs tag) := by
  obtain ⟨ms, rfl, hk, -, hkind, hfields⟩ | ⟨items', rfl, hlong, hfields⟩ :=
    h.read (nodup_groupFields join items tag "group")
  · exact rule_obj_eq_ok_iff.mpr ⟨.str "group", hkind _ List.mem_cons_self,
      .inr ⟨rfl, _, groupOfMembers_of_gives hk hrules hfields, rfl⟩⟩
  · have hk := nodup_zip (show groupKeys.Nodup by decide) items'
    exact rule_arr_eq_ok_iff.mpr
      (.inr ⟨rfl, hlong, _, groupOfMembers_of_gives hk hrules hfields, rfl⟩)

mutual

theorem rule_spelledAs (inner : Bool) : ∀ (r : Rule) (v : Json), r.SpelledAs v →
    rule inner v = .ok r.canonical
  | .condition _, _, h => rule_condition h
  | .group _ members _, _, ⟨items, hitems, h⟩ =>
    rule_group (rules_allSpelledAs true members items hitems) h

theorem rules_allSpelledAs (inner : Bool) : ∀ (rs : List Rule) (vs : List Json),
    Rule.AllSpelledAs rs vs → rules inner vs = .ok (Rule.canonicalAll rs)
  | [], [], _ => rfl
  | r :: rs, v :: vs, ⟨hr, hrs⟩ => by
    rw [rules, rule_spelledAs inner r v hr]
    show (rules inner vs >>= _) = _
    rw [rules_allSpelledAs inner rs vs hrs]
    rfl

end

end Shape

/-- **Every spelling of a root is read as its canonical form.** -/
theorem Group.ofJson_spelledAs {g : Group} {v : Json} (h : g.SpelledAs v) :
    Group.ofJson v = .ok g.canonical := by
  obtain ⟨items, hitems, h⟩ := h
  have hrules := Shape.rules_allSpelledAs false g.members items hitems
  obtain ⟨ms, rfl, hk, -, -, hfields⟩ | ⟨items', rfl, hlong, hfields⟩ :=
    h.read (nodup_groupFields g.join items g.tag "group").of_cons
  · exact Shape.groupOfMembers_of_gives hk hrules hfields
  · have hk := Shape.nodup_zip (show Shape.groupKeys.Nodup by decide) items'
    exact Shape.ofJson_arr_eq_ok_iff.mpr
      ⟨hlong, Shape.groupOfMembers_of_gives hk hrules hfields⟩

/-! ## texts -/

theorem writable_tagValue (t : Option String) : (tagValue t).Writable := by cases t <;> trivial
theorem nesting_tagValue (t : Option String) : (tagValue t).nesting = 0 := by cases t <;> rfl

namespace Condition
variable (c : Condition)

theorem writable_fields : ∀ m ∈ c.fields, m.2.Writable := by
  simp only [fields, List.forall_mem_cons]
  exact ⟨trivial, trivial, c.value.writable_envelope, writable_tagValue c.tag,
    List.forall_mem_nil _⟩

theorem nesting_fields : ∀ m ∈ c.fields, m.2.nesting ≤ 1 := by
  simp only [fields, List.forall_mem_cons, nesting_tagValue]
  exact ⟨Nat.zero_le 1, Nat.zero_le 1, c.value.nesting_envelope, Nat.zero_le 1,
    List.forall_mem_nil _⟩

end Condition

section
variable {items : List Json} (join : Join) (tag : Option String)

theorem writable_groupFields (h : AllWritable items) :
    ∀ m ∈ groupFields join items tag, m.2.Writable := by
  simp only [groupFields, List.forall_mem_cons]
  exact ⟨trivial, h, writable_tagValue tag, List.forall_mem_nil _⟩

theorem nesting_groupFields {n : Nat} (h : nestingOfAll items ≤ n) :
    ∀ m ∈ groupFields join items tag, m.2.nesting ≤ n + 1 := by
  simp only [groupFields, List.forall_mem_cons, nesting_tagValue]
  exact ⟨Nat.zero_le _, Nat.succ_le_succ h, Nat.zero_le _, List.forall_mem_nil _⟩

end

namespace Rule

mutual

theorem writable_spelledAs : ∀ (r : Rule) (v : Json), r.SpelledAs v → v.Writable
  | .condition c, _, h =>
    IsRecord.writable (c.nodup_fields "filter") h
      (List.forall_mem_cons.mpr ⟨trivial, c.writable_fields⟩)
  | .group join members tag, _, ⟨items, hitems, h⟩ =>
    h.writable (nodup_groupFields join items tag "group") (List.forall_mem_cons.mpr
      ⟨trivial, writable_groupFields join tag (writable_allSpelledAs members items hitems)⟩)

theorem writable_allSpelledAs : ∀ (rs : List Rule) (vs : List Json),
    AllSpelledAs rs vs → AllWritable vs
  | [], [], _ => trivial
  | r :: rs, v :: vs, ⟨hr, hrs⟩ =>
    ⟨writable_spelledAs r v hr, writable_allSpelledAs rs vs hrs⟩

end

mutual

/-- each group takes its own level and that of its members, and a condition one and its envelope -/
theorem nesting_spelledAs : ∀ (r : Rule) (v : Json), r.SpelledAs v → v.nesting ≤ 2 * r.depth + 2
  | .condition c, _, h =>
    IsRecord.nesting_le (c.nodup_fields "filter") h
      (List.forall_mem_cons.mpr ⟨Nat.zero_le 1, c.nesting_fields⟩)
  | .group join members tag, v, ⟨items, hitems, h⟩ => by
    have hn := h.nesting_le (nodup_groupFields join items tag "group") (List.forall_mem_cons.mpr
      ⟨Nat.zero_le _, nesting_groupFields join tag (nesting_allSpelledAs members items hitems)⟩)
    show v.nesting ≤ 2 * (1 + depthOfAll members) + 2
    omega

theorem nesting_allSpelledAs : ∀ (rs : List Rule) (vs : List Json),
    AllSpelledAs rs vs → nestingOfAll vs ≤ 2 * depthOfAll rs + 2
  | [], [], _ => Nat.zero_le _
  | r :: rs, v :: vs, ⟨hr, hrs⟩ => by
    have hv := nesting_spelledAs r v hr
    have hvs := nesting_allSpelledAs rs vs hrs
    show max v.nesting (nestingOfAll vs) ≤ 2 * max r.depth (depthOfAll rs) + 2
    omega

end

end Rule

namespace Group.SpelledAs
variable {g : Group} {v : Json} (h : g.SpelledAs v)
include h

theorem writable : v.Writable := by
  obtain ⟨items, hitems, h⟩ := h
  exact h.writable (nodup_groupFields g.join items g.tag "group").of_cons
    (writable_groupFields g.join g.tag (Rule.writable_allSpelledAs g.members items hitems))

theorem nesting_le : v.nesting ≤ 2 * g.depth + 2 := by
  obtain ⟨items, hitems, h⟩ := h
  have hn := h.nesting_le (nodup_groupFields g.join items g.tag "group").of_cons
    (nesting_groupFields g.join g.tag (Rule.nesting_allSpelledAs g.members items hitems))
  show v.nesting ≤ 2 * (1 + Rule.depthOfAll g.members) + 2
  omega

end Group.SpelledAs
end SavedFilter
