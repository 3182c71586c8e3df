import SavedFilter.Proofs.Document.RoundTrip
import SavedFilter.Proofs.Json.Nesting
import SavedFilter.Proofs.Json.Size
import SavedFilter.Rule.Edit

/-!
# How deep a saved group may be

Two limits stop a document that is too deep: that of the reader of JSON, which counts arrays and
objects, and that of the loader, which counts groups.  A group takes an object and an array of its
JSON, and a value one array more than the condition it stands in, so

* `Group.nesting_toJson_le_iff`   the JSON of a group is nested at most `2 * level + 3` deep just
                                  when it has no more than `level + 1` levels of groups, and no
                                  value on the last one of these;
* `Document.load_save_eq`         what becomes of a saved group is told by these two numbers;
* `Document.load_save_deep`       the limit of the loader is lower than that of the reader, and from
                                  level 63 on the reader is the first to refuse.
-/

namespace SavedFilter

/-! ## levels -/

def Rule.group? : Rule → Option Group
  | .condition _ => none
  | .group join members tag => some ⟨join, members, tag⟩

/-- the rule is a condition with a value other than null -/
def Rule.hasValue : Rule → Bool
  | .condition c => !c.value.isNull
  | .group _ _ _ => false

namespace Group

def children (g : Group) : List Group := g.members.filterMap Rule.group?

/-- the groups of a level; the root is all of level 1 -/
def atLevel : (level : Nat) → Group → List Group
  | 0, _ => []
  | 1, g => [g]
  | level + 2, g => g.children.flatMap (atLevel (level + 1))

/-- some group of a level holds a condition with a value -/
def HoldsValueAt (g : Group) (level : Nat) : Prop :=
  ∃ h ∈ g.atLevel level, ∃ r ∈ h.members, r.hasValue = true

instance (g : Group) (level : Nat) : Decidable (g.HoldsValueAt level) :=
  inferInstanceAs (Decidable (∃ h ∈ g.atLevel level, ∃ r ∈ h.members, r.hasValue = true))

theorem holdsValueAt_one (g : Group) : g.HoldsValueAt 1 ↔ ∃ r ∈ g.members, r.hasValue = true := by
  simp only [HoldsValueAt, atLevel, List.mem_singleton, exists_eq_left]

theorem mem_children {g h : Group} : h ∈ g.children ↔ h.toRule ∈ g.members := by
  rw [children, List.mem_filterMap]
  constructor
  · rintro ⟨r, hr, he⟩
    cases r with
    | condition c => cases he
    | group join members tag =>
      obtain rfl := Option.some.inj he
      exact hr
  · intro hh
    exact ⟨h.toRule, hh, rfl⟩

theorem holdsValueAt_next (g : Group) (level : Nat) :
    g.HoldsValueAt (level + 2) ↔
      ∃ h : Group, h.toRule ∈ g.members ∧ h.HoldsValueAt (level + 1) := by
  constructor
  · rintro ⟨k, hk, hvalue⟩
    obtain ⟨h, hh, hk⟩ := List.mem_flatMap.mp hk
    exact ⟨h, mem_children.mp hh, k, hk, hvalue⟩
  · rintro ⟨h, hh, k, hk, hvalue⟩
    exact ⟨k, List.mem_flatMap.mpr ⟨h, mem_children.mpr hh, hk⟩, hvalue⟩

end Group

/-! ## depth and nesting of the members of a group -/

theorem Rule.depthOfAll_le_iff {rs : List Rule} {n : Nat} :
    depthOfAll rs ≤ n ↔ ∀ r ∈ rs, r.depth ≤ n := by
  induction rs with
  | nil => exact iff_of_true (Nat.zero_le n) (List.forall_mem_nil _)
  | cons r rs ih => rw [depthOfAll_cons, max_le_iff, ih, List.forall_mem_cons]

theorem Rule.nestingOfAll_toJsonAll_le_iff {rs : List Rule} {n : Nat} :
    Json.nestingOfAll (toJsonAll rs) ≤ n ↔ ∀ r ∈ rs, r.toJson.nesting ≤ n := by
  induction rs with
  | nil => exact iff_of_true (Nat.zero_le n) (List.forall_mem_nil _)
  | cons r rs ih => rw [toJsonAll_cons, Json.nestingOfAll, max_le_iff, ih, List.forall_mem_cons]

theorem Rule.nesting_tagMember (t : Option String) : Json.nestingOfMembers (tagMember t) = 0 := by
  cases t <;> rfl

/-- a value is the second array or object on its path -/
theorem Condition.nesting_toJson_eq (c : Condition) :
    (Rule.condition c).toJson.nesting = if c.value.isNull then 1 else 2 := by
  have hv : c.value.isNull = false → c.value.envelope.nesting = 1 := by
    intro hn
    rw [Scalar.envelope]
    cases hk : c.value.kind? with
    | none => rw [(Scalar.kind?_eq_none_iff _).mp hk] at hn; cases hn
    | some k => simp [Json.nesting, Json.nestingOfAll, c.value.writable_literal.2]
  show Json.nestingOfMembers (("type", .str "filter") :: c.members) + 1 = _
  unfold Condition.members
  cases hn : c.value.isNull <;> cases c.tag <;>
    simp [Rule.tagMember, Json.nestingOfMembers, Json.nesting, hv, hn]

namespace Group

theorem nesting_toJson_eq (g : Group) :
    g.toJson.nesting = Json.nestingOfAll (Rule.toJsonAll g.members) + 2 := by
  have ht := Rule.nesting_tagMember g.tag
  show max 0 (max (Json.nestingOfAll (Rule.toJsonAll g.members) + 1)
    (Json.nestingOfMembers (Rule.tagMember g.tag))) + 1 = _
  omega

/-- the type of a rule makes it no deeper -/
theorem nesting_toRule (g : Group) : g.toRule.toJson.nesting = g.toJson.nesting :=
  congrArg (· + 1) (Nat.zero_max _)

theorem depth_le_iff {g : Group} {n : Nat} : g.depth ≤ n + 1 ↔ ∀ r ∈ g.members, r.depth ≤ n := by
  rw [← Rule.depthOfAll_le_iff, depth]
  omega

theorem nesting_le_iff {g : Group} {n : Nat} :
    g.toJson.nesting ≤ n + 2 ↔ ∀ r ∈ g.members, r.toJson.nesting ≤ n := by
  rw [← Rule.nestingOfAll_toJsonAll_le_iff, nesting_toJson_eq]
  omega

/-- only a condition without a value has nothing but its own object -/
theorem nesting_toJson_le_one_iff (r : Rule) :
    r.toJson.nesting ≤ 1 ↔ r.depth ≤ 0 ∧ ¬ r.hasValue = true := by
  cases r with
  | condition c =>
    have hdepth : (Rule.condition c).depth = 0 := rfl
    rw [c.nesting_toJson_eq, hdepth, Rule.hasValue]
    cases c.value.isNull <;> decide
  | group join members tag =>
    have hn := nesting_toJson_eq ⟨join, members, tag⟩
    rw [← nesting_toRule] at hn
    have hdepth : (Rule.group join members tag).depth = 1 + Rule.depthOfAll members := rfl
    have hnesting : (Rule.group join members tag).toJson.nesting =
        Json.nestingOfAll (Rule.toJsonAll members) + 2 := hn
    omega

/-- **The nesting of the JSON of a group tells its depth, and whether a value stands on the last
level.** -/
theorem nesting_toJson_le_iff (level : Nat) (g : Group) :
    g.toJson.nesting ≤ 2 * level + 3 ↔
      g.depth ≤ level + 1 ∧ ¬ g.HoldsValueAt (level + 1) := by
  induction level generalizing g with
  | zero =>
    rw [holdsValueAt_one, depth_le_iff, nesting_le_iff]
    simp only [nesting_toJson_le_one_iff, forall₂_and, not_exists, not_and]
  | succ level ih =>
    -- a condition fits at every level but the last
    have hrule : ∀ r : Rule, r.toJson.nesting ≤ 2 * level + 3 ↔
        r.depth ≤ level + 1 ∧ ∀ h : Group, r = h.toRule → ¬ h.HoldsValueAt (level + 1) := by
      intro r
      cases r with
      | condition c =>
        have hn := c.nesting_toJson
        refine iff_of_true (by omega) ⟨Nat.zero_le _, fun h he => (by cases he)⟩
      | group join members tag =>
        have hih := ih ⟨join, members, tag⟩
        rw [← nesting_toRule] at hih
        refine hih.trans (and_congr_right fun _ => ⟨?_, fun h => h _ rfl⟩)
        rintro hno h he
        obtain ⟨rfl, rfl, rfl⟩ := Rule.group.inj he
        exact hno
    have hsum : 2 * (level + 1) + 3 = 2 * level + 3 + 2 := by omega
    rw [holdsValueAt_next, depth_le_iff, hsum, nesting_le_iff]
    constructor
    · intro h
      refine ⟨fun r hr => ((hrule r).mp (h r hr)).1, ?_⟩
      rintro ⟨k, hk, hvalue⟩
      exact ((hrule _).mp (h _ hk)).2 k rfl hvalue
    · rintro ⟨hdepth, hno⟩ r hr
      refine (hrule r).mpr ⟨hdepth r hr, ?_⟩
      rintro k rfl hvalue
      exact hno ⟨k, hr, hvalue⟩

end Group

namespace Document
open Json

/-! ## what becomes of a saved group -/

section
variable (g : Group)

theorem parseWithin_save (limit : Nat) :
    parseWithin limit (save g).toList =
      if g.toJson.nesting ≤ limit then .ok g.toJson else .error .malformed :=
  parseWithin_compactText g.writable_toJson limit

theorem parseText_save_eq :
    parseText (save g) =
      if g.toJson.nesting ≤ maxNesting then .ok g.toJson else .error .malformed := by
  rw [parseText, parse_eq_parseWithin, parseWithin_save]

/-- the limit of the reader comes before that of the loader -/
theorem load_save_eq (hs : (save g).utf8ByteSize ≤ maxSize) :
    load (save g) =
      if g.toJson.nesting ≤ maxNesting then
        if maxDepth < g.depth then .error (.tooDeep g.depth) else .ok g.canonical
      else .error (.json .malformed) := by
  rw [load, if_neg (Nat.not_lt.mpr hs), parseText_save_eq]
  split_ifs with hn hd
  · exact (ofJson_toJson_eq g).trans (if_pos hd)
  · exact (ofJson_toJson_eq g).trans (if_neg hd)
  · rfl

theorem message_tooDeep (depth : Nat) :
    (LoadFault.tooDeep depth).message =
      "Filter groups nested " ++ Text.count depth ++ " deep, maximum is 32" := by
  have hlimit : " deep, maximum is " ++ Text.count maxDepth = " deep, maximum is 32" := by
    decide
  exact (String.append_assoc ..).trans (congrArg _ hlimit)

/-- the last level at which the reader lets a group pass is 63, if there is no value there -/
theorem nesting_le_maxNesting_iff :
    g.toJson.nesting ≤ maxNesting ↔ g.depth ≤ 63 ∧ ¬ g.HoldsValueAt 63 :=
  g.nesting_toJson_le_iff 62

/-- a group has nothing below its last level -/
theorem not_holdsValueAt_of_depth_lt (h : g.depth ≤ 62) : ¬ g.HoldsValueAt 63 := by
  have hn := g.nesting_toJson
  have hle : g.toJson.nesting ≤ maxNesting := by
    unfold maxNesting
    omega
  exact ((nesting_le_maxNesting_iff g).mp hle).2

end

/-- **The limit of the depth is exact.**  The text of a group of at most 32 levels is always JSON to
the reader, in either layout.  Of the texts that are not too large those of more levels, and no
others, are refused: up to 62 levels for their depth, which the fault names with the limit; at 63
levels likewise, unless a value stands on the last of them; and else because JSON is nested more
than 127 deep in them, for with a higher limit the same text is read. -/
theorem load_save_deep (g : Group) :
    (g.depth ≤ 32 → parseText (save g) = .ok g.toJson ∧ parseText (savePretty g) = .ok g.toJson) ∧
    ((save g).utf8ByteSize ≤ 65536 →
      ((∃ f, load (save g) = .error f) ↔ 32 < g.depth) ∧
      (33 ≤ g.depth ∧ g.depth ≤ 62 ∨ g.depth = 63 ∧ ¬ g.HoldsValueAt 63 →
        load (save g) = .error (.tooDeep g.depth)) ∧
      (LoadFault.tooDeep g.depth).message =
        "Filter groups nested " ++ Text.count g.depth ++ " deep, maximum is 32" ∧
      (g.depth = 63 ∧ g.HoldsValueAt 63 ∨ 64 ≤ g.depth →
        load (save g) = .error (.json .malformed) ∧ 127 < g.toJson.nesting ∧
          parseWithin g.toJson.nesting (save g).toList = .ok g.toJson)) := by
  refine ⟨fun hd => ⟨parseText_save hd, parseText_savePretty hd⟩, fun hs => ?_⟩
  have hload := load_save_eq g hs
  have hiff := nesting_le_maxNesting_iff g
  refine ⟨?_, ?_, message_tooDeep g.depth, ?_⟩
  · rw [hload]
    constructor
    · rintro ⟨f, hf⟩
      by_contra hd
      rw [if_pos (nesting_toJson_le (Nat.not_lt.mp hd)),
        if_neg (show ¬ maxDepth < g.depth from hd)] at hf
      cases hf
    · intro hd
      rw [if_pos (show maxDepth < g.depth from hd)]
      split_ifs
      · exact ⟨_, rfl⟩
      · exact ⟨_, rfl⟩
  · intro h
    have hn : g.toJson.nesting ≤ maxNesting := by
      rw [hiff]
      rcases h with ⟨-, hle⟩ | ⟨heq, hno⟩
      · exact ⟨by omega, not_holdsValueAt_of_depth_lt g hle⟩
      · exact ⟨heq.le, hno⟩
    have hd : maxDepth < g.depth := by
      unfold maxDepth
      omega
    rw [hload, if_pos hn, if_pos hd]
  · intro h
    have hn : ¬ g.toJson.nesting ≤ maxNesting := by
      rw [hiff]
      rintro ⟨hle, hno⟩
      rcases h with ⟨-, hvalue⟩ | hdeep
      · exact hno hvalue
      · omega
    rw [hload, if_neg hn, parseWithin_save, if_pos le_rfl]
    exact ⟨rfl, Nat.lt_of_not_le hn, rfl⟩

/-! ## groups within groups -/

/-- a group in `n` more groups -/
def wrapped : (n : Nat) → Group → Group
  | 0, g => g
  | n + 1, g => (wrapped n g).wrap .and

theorem depth_wrapped (n : Nat) (g : Group) : (wrapped n g).depth = n + g.depth := by
  induction n with
  | zero => exact (Nat.zero_add _).symm
  | succ n ih =>
    rw [wrapped, Group.depth_wrap, ih]
    omega

/-- as a rule, a group has a type -/
theorem size_toRule (g : Group) : g.toRule.toJson.size = g.toJson.size + 15 := by
  have hsize : (str "type").size + (str "group").size + 2 = 15 := by decide
  rw [Nat.add_comm, ← hsize]
  exact size_obj_cons ..

/-- a wrapped group stands alone in an array of a new object -/
theorem size_wrap (g : Group) : (g.wrap .and).toJson.size = g.toJson.size + 43 := by
  have hwrap : (g.wrap .and).toJson.size =
      14 + (obj [("filters", arr [g.toRule.toJson])]).size := by
    have hsize : (str "logic").size + (str "and").size + 2 = 14 := by decide
    rw [← hsize]
    exact size_obj_cons ..
  have hkey : (str "filters").size = 9 := by decide
  rw [hwrap, size_obj_singleton, size_arr_singleton, size_toRule, hkey]
  omega

theorem size_save_wrapped (n : Nat) (g : Group) :
    (save (wrapped n g)).utf8ByteSize = g.toJson.size + 43 * n := by
  rw [save, utf8ByteSize_compactText]
  induction n with
  | zero => rw [wrapped, Nat.mul_zero, Nat.add_zero]
  | succ n ih =>
    rw [wrapped, size_wrap, ih]
    omega

/-- a value 62 and 63 levels down, and a condition without value 63 and 64 levels down -/
theorem load_save_deep_wrapped :
    let valued : Group := ⟨.or, [.condition ⟨"a", "", .bool true, none⟩], none⟩
    let bare : Group := ⟨.or, [.condition ⟨"a", "is-null", .null, none⟩], none⟩
    let small (g : Group) := (save g).utf8ByteSize ≤ 65536
    (valued.depth ≤ 32 ∧ parseText (savePretty valued) = .ok valued.toJson) ∧
    (small (wrapped 61 valued) ∧ load (save (wrapped 61 valued)) = .error (.tooDeep 62)) ∧
    (small (wrapped 62 bare) ∧ load (save (wrapped 62 bare)) = .error (.tooDeep 63)) ∧
    (small (wrapped 62 valued) ∧ load (save (wrapped 62 valued)) = .error (.json .malformed)) ∧
    (small (wrapped 63 bare) ∧ load (save (wrapped 63 bare)) = .error (.json .malformed)) := by
  intro valued bare small
  have hsmall : ∀ n ≤ 100, ∀ g : Group, g.toJson.size ≤ 100 → small (wrapped n g) := by
    intro n hn g hg
    have hsize := size_save_wrapped n g
    show (save (wrapped n g)).utf8ByteSize ≤ 65536
    omega
  have hvalued : valued.toJson.size ≤ 100 := by decide +kernel
  have hbare : bare.toJson.size ≤ 100 := by decide +kernel
  have h₁ : small (wrapped 61 valued) := hsmall 61 (by decide) valued hvalued
  have h₂ : small (wrapped 62 bare) := hsmall 62 (by decide) bare hbare
  have h₃ : small (wrapped 62 valued) := hsmall 62 (by decide) valued hvalued
  have h₄ : small (wrapped 63 bare) := hsmall 63 (by decide) bare hbare
  have hd₁ : (wrapped 61 valued).depth = 62 := depth_wrapped 61 valued
  have hd₂ : (wrapped 62 bare).depth = 63 := depth_wrapped 62 bare
  have hd₃ : (wrapped 62 valued).depth = 63 := depth_wrapped 62 valued
  have hd₄ : (wrapped 63 bare).depth = 64 := depth_wrapped 63 bare
  refine ⟨⟨by decide, ((load_save_deep valued).1 (by decide)).2⟩, ⟨h₁, ?_⟩, ⟨h₂, ?_⟩, ⟨h₃, ?_⟩,
    ⟨h₄, ?_⟩⟩
  · have hload := ((load_save_deep (wrapped 61 valued)).2 h₁).2.1 (.inl ⟨by omega, by omega⟩)
    exact hload.trans (congrArg _ (congrArg _ hd₁))
  · have hload := ((load_save_deep (wrapped 62 bare)).2 h₂).2.1 (.inr ⟨hd₂, by decide +kernel⟩)
    exact hload.trans (congrArg _ (congrArg _ hd₂))
  · exact (((load_save_deep (wrapped 62 valued)).2 h₃).2.2.2 (.inl ⟨hd₃, by decide +kernel⟩)).1
  · exact (((load_save_deep (wrapped 63 bare)).2 h₄).2.2.2 (.inr hd₄.ge)).1

end Document
end SavedFilter
