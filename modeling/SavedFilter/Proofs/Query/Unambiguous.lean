import SavedFilter.Proofs.Query.Forms
import SavedFilter.Proofs.Text.Runs

/-!
# A query tells its rule

Two rules with the same query are the same rule, up to what a query does not show: the join of a
group with one member, tags, and the value beside a test for null.  This is about *plain* rules:
fields are words of letters, digits and underscores, operators are built in, no group is empty.

A built-in operator writes around the field `front field stem tail`; the field ends where the stem
begins, since no stem begins with a character of a word, and no stem is the beginning of another
one (`Form.eq_of_prefix`).  A rule can therefore be taken off the front of a text in one way only
(`agrees_of_append_eq`), whatever stands behind it.
-/

set_option linter.unusedSectionVars false

namespace SavedFilter

/-! ## what the built-in operators write -/

namespace Operators

/-- every built-in code is in normal form and stands once in the table -/
theorem latest_of_mem {e : String × Form} (he : e ∈ builtinForms) :
    Text.allBlank e.1 = false ∧ latest builtinEntries (normalForm e.1) = e.2.emitter := by
  have h : ∀ e ∈ builtinForms, Text.allBlank e.1 = false ∧
      (builtinForms.reverse.find? fun d => normalForm d.1 == normalForm e.1) = some e := by
    decide
  obtain ⟨hb, hf⟩ := h e he
  refine ⟨hb, ?_⟩
  rw [latest, builtinEntries_eq, ← List.map_reverse, List.find?_map]
  show ((Option.map _ (builtinForms.reverse.find? fun d => normalForm d.1 == normalForm e.1)).map
    _).getD _ = _
  rw [hf]
  rfl

/-- the stems tell the built-in operators with the same front apart, and none begins another -/
theorem eq_of_prefix {e d : String × Form} (he : e ∈ builtinForms) (hd : d ∈ builtinForms)
    (hf : e.2.front = d.2.front) (hs : e.2.stem <+: d.2.stem) : e = d := by
  have h : ∀ e ∈ builtinForms, ∀ d ∈ builtinForms, e.2.front = d.2.front →
      e.2.stem <+: d.2.stem → e = d := by
    decide
  exact h e he d hd hf hs

theorem binds_iff {e : String × Form} (he : e ∈ builtinForms) :
    e.2.binds = true ↔ e.1 ≠ "is-null" ∧ e.1 ≠ "is-not-null" := by
  have h : ∀ e ∈ builtinForms, (e.2.binds = true ↔ e.1 ≠ "is-null" ∧ e.1 ≠ "is-not-null") := by
    decide
  exact h e he

end Operators

abbrev Rule.builtinEmit (token : String) (n : Nat) (c : Condition) : Query :=
  Rule.emitOf Operators.builtinEntries token n c

/-! ## plain rules -/

def isWordChar (c : Char) : Bool := c.isAlphanum || c == '_'

/-- the field is a word, the operator is built in -/
def Condition.IsPlain (c : Condition) : Prop :=
  c.field.toList ≠ [] ∧ (∀ x ∈ c.field.toList, isWordChar x = true) ∧
    c.operator ∈ Operators.builtinEntries.map (·.1)

instance (c : Condition) : Decidable c.IsPlain :=
  decidable_of_iff (c.field.toList ≠ [] ∧ c.field.toList.all isWordChar = true ∧
    c.operator ∈ Operators.builtinEntries.map (·.1)) (by rw [List.all_eq_true]; rfl)

namespace Rule

mutual

/-- all conditions are plain, and no group is empty -/
def IsPlain : Rule → Prop
  | .condition c => c.IsPlain
  | .group _ members _ => members ≠ [] ∧ ArePlain members

def ArePlain : List Rule → Prop
  | [] => True
  | r :: rs => r.IsPlain ∧ ArePlain rs

end

mutual

/-- the same shape, the same fields and operators, the same join where there are two members to
join, and the same value where the operator is not one of the tests for null -/
def Agrees : Rule → Rule → Prop
  | .condition c, .condition d =>
    c.field = d.field ∧ c.operator = d.operator ∧
      (c.operator ≠ "is-null" ∧ c.operator ≠ "is-not-null" → c.value = d.value)
  | .group j ms _, .group k ns _ => (2 ≤ ms.length → j = k) ∧ AllAgree ms ns
  | .condition _, .group _ _ _ | .group _ _ _, .condition _ => False

def AllAgree : List Rule → List Rule → Prop
  | [], [] => True
  | r :: rs, s :: ss => r.Agrees s ∧ AllAgree rs ss
  | [], _ :: _ | _ :: _, [] => False

end

end Rule

/-! ## words -/

theorem toNat_of_isAlpha {c : Char} (h : c.isAlpha = true) : 65 ≤ c.toNat ∧ c.toNat ≤ 122 := by
  rcases Bool.or_eq_true_iff.mp h with h | h
  · have hc : 'A' ≤ c ∧ c ≤ 'Z' := of_decide_eq_true h
    exact ⟨UInt32.le_iff_toNat_le.mp hc.1, le_trans (UInt32.le_iff_toNat_le.mp hc.2) (by decide)⟩
  · obtain ⟨hl, hh⟩ := Bool.and_eq_true_iff.mp h
    have hl : 'a' ≤ c := of_decide_eq_true hl
    have hh : c ≤ 'z' := of_decide_eq_true hh
    exact ⟨le_trans (by decide) (UInt32.le_iff_toNat_le.mp hl), UInt32.le_iff_toNat_le.mp hh⟩

theorem isBlank_of_isWordChar {c : Char} (h : isWordChar c = true) : Text.isBlank c = false := by
  have hn : 48 ≤ c.toNat ∧ c.toNat ≤ 122 := by
    rcases Bool.or_eq_true_iff.mp h with h | h
    · rcases Bool.or_eq_true_iff.mp h with h | h
      · obtain ⟨hl, hh⟩ := toNat_of_isAlpha h
        exact ⟨le_trans (by decide) hl, hh⟩
      · obtain ⟨hl, hh⟩ := Char.isDigit_iff_toNat.mp h
        exact ⟨hl, le_trans hh (by decide)⟩
    · rw [beq_iff_eq.mp h]
      decide
  simp only [Text.isBlank, Bool.or_eq_false_iff, Bool.and_eq_false_iff, decide_eq_false_iff_not,
    beq_eq_false_iff_ne]
  omega

theorem word_append_ne {w xs : List Char} {c : Char} (hw0 : w ≠ [])
    (hw : ∀ x ∈ w, isWordChar x = true) (hc : isWordChar c = false) (ys : List Char) :
    w ++ xs ≠ c :: ys := by
  intro he
  cases w with
  | nil => exact hw0 rfl
  | cons x w =>
    obtain ⟨rfl, -⟩ := List.cons.inj he
    rw [hw x (List.mem_cons_self ..)] at hc
    exact Bool.false_ne_true hc.symm

namespace Form

theorem stops_stem (f : Form) (xs : List Char) : Text.Stops isWordChar (f.stem ++ xs) := by
  cases f <;> exact Text.stops_cons _ rfl

theorem front_cases (f : Form) : f.front = [] ∨ f.front = ['!'] := by
  rcases f with _ | _ | ⟨_, _ | _⟩
  · exact .inl rfl
  · exact .inl rfl
  · exact .inl rfl
  · exact .inr rfl

theorem front_append_inj {f g : Form} {w w' xs xs' : List Char} (hw0 : w ≠ []) (hw0' : w' ≠ [])
    (hw : ∀ c ∈ w, isWordChar c = true) (hw' : ∀ c ∈ w', isWordChar c = true)
    (h : f.front ++ (w ++ xs) = g.front ++ (w' ++ xs')) :
    f.front = g.front ∧ w ++ xs = w' ++ xs' := by
  rcases f.front_cases with hf | hf <;> rcases g.front_cases with hg | hg <;>
    simp only [hf, hg, List.nil_append, List.cons_append] at h
  · exact ⟨hf.trans hg.symm, h⟩
  · exact absurd h (word_append_ne hw0 hw rfl _)
  · exact absurd h.symm (word_append_ne hw0' hw' rfl _)
  · exact ⟨hf.trans hg.symm, (List.cons.inj h).2⟩

end Form

/-! ## taking a rule off a query -/

namespace Condition
variable {c d : Condition}

theorem IsPlain.exists_form (h : c.IsPlain) :
    ∃ e ∈ Operators.builtinForms, e.1 = c.operator ∧ ∀ (token : String) (n : Nat),
      Rule.builtinEmit token n c = e.2.emitter.emit token n c := by
  have hm : c.operator ∈ Operators.builtinForms.map (·.1) := by
    have := h.2.2
    rwa [Operators.builtinEntries_eq, List.map_map] at this
  obtain ⟨e, he, hop⟩ := List.mem_map.mp hm
  obtain ⟨hb, hl⟩ := Operators.latest_of_mem he
  refine ⟨e, he, hop, ?_⟩
  intro token n
  rw [Rule.builtinEmit, Rule.emitOf, operatorKey, ← hop, hb, if_neg Bool.false_ne_true, hl]

theorem IsPlain.render?_eq (h : c.IsPlain) {e : String × Form}
    (hemit : ∀ (token : String) (n : Nat),
      Rule.builtinEmit token n c = e.2.emitter.emit token n c)
    (token : String) (n : Nat) :
    Rule.renderCondition? (Rule.builtinEmit token) n c
      = some (e.2.emitter.emit token n c) := by
  obtain ⟨hne, hw, -⟩ := h
  have hfield : Text.trim c.field.toList ≠ [] := by
    intro h0
    obtain ⟨x, hx⟩ := List.exists_mem_of_ne_nil _ hne
    have hblank := List.all_eq_true.mp ((Text.trim_eq_nil_iff _).mp h0) x hx
    rw [isBlank_of_isWordChar (hw x hx)] at hblank
    exact Bool.false_ne_true hblank
  have htext : (e.2.emitter.emit token n c).text ≠ "" := by
    intro h0
    have ht := e.2.toList_emit token n c
    rw [h0] at ht
    exact hne (List.append_eq_nil_iff.mp (List.append_eq_nil_iff.mp ht.symm).2).1
  rw [Rule.renderCondition?, if_neg hfield, hemit, if_neg htext]

/-- two plain conditions with the same number in front of the same text are the same, and what
stands behind them is the same too -/
theorem agrees_of_append_eq (hc : c.IsPlain) (hd : d.IsPlain) {token : String} {n : Nat}
    {p q : Query} {rest rest' : List Char} {vs vs' : List Scalar}
    (hp : Rule.renderCondition? (Rule.builtinEmit token) n c = some p)
    (hq : Rule.renderCondition? (Rule.builtinEmit token) n d = some q)
    (ht : p.text.toList ++ rest = q.text.toList ++ rest') (hv : p.values ++ vs = q.values ++ vs') :
    (Rule.condition c).Agrees (.condition d) ∧ rest = rest' ∧ vs = vs' := by
  obtain ⟨e, he, hop, hemit⟩ := hc.exists_form
  obtain ⟨f, hf, hop', hemit'⟩ := hd.exists_form
  obtain rfl := Option.some.inj ((hc.render?_eq hemit token n).symm.trans hp)
  obtain rfl := Option.some.inj ((hd.render?_eq hemit' token n).symm.trans hq)
  rw [e.2.toList_emit, f.2.toList_emit] at ht
  simp only [List.append_assoc] at ht
  obtain ⟨hfront, ht⟩ := Form.front_append_inj hc.1 hd.1 hc.2.1 hd.2.1 ht
  obtain ⟨hfield, ht⟩ := Text.run_append_inj hc.2.1 hd.2.1 (e.2.stops_stem _) (f.2.stops_stem _) ht
  have hef : e = f := by
    rcases List.prefix_or_prefix_of_prefix (List.prefix_append e.2.stem _)
      (ht ▸ List.prefix_append f.2.stem _) with hs | hs
    · exact Operators.eq_of_prefix he hf hfront hs
    · exact (Operators.eq_of_prefix hf he hfront.symm hs).symm
  subst hef
  have hrest : rest = rest' :=
    List.append_cancel_left (List.append_cancel_left ht)
  rw [e.2.values_emit, e.2.values_emit] at hv
  have hfields : c.field = d.field := String.toList_inj.mp hfield
  by_cases hb : e.2.binds = true
  · rw [if_pos hb, if_pos hb] at hv
    obtain ⟨hval, hvs⟩ := List.cons.inj hv
    exact ⟨⟨hfields, hop.symm.trans hop', fun _ => hval⟩, hrest, hvs⟩
  · rw [if_neg hb, if_neg hb] at hv
    refine ⟨⟨hfields, hop.symm.trans hop', ?_⟩, hrest, hv⟩
    intro hne
    exact absurd ((Operators.binds_iff he).mpr (hop ▸ hne)) hb

end Condition

namespace Rule
variable {token : String}

/-- what a plain rule renders to; every plain rule renders to something -/
theorem exists_render? (token : String) : ∀ (r : Rule), r.IsPlain → ∀ n : Nat,
    ∃ q, render? (builtinEmit token) n r = some q
  | .condition c, h, n => by
    obtain ⟨e, -, -, hemit⟩ := Condition.IsPlain.exists_form h
    exact ⟨_, Condition.IsPlain.render?_eq h hemit token n⟩
  | .group join (r :: rs) tag, h, n => by
    obtain ⟨q, hq⟩ := exists_render? token r h.2.1 n
    rw [render?, renderAll, hq]
    exact ⟨_, Query.enclose?_cons join q _⟩
  | .group _ [] _, h, _ => absurd rfl h.1

theorem render?_group {join : Join} {r : Rule} {rs : List Rule} {tag : Option String} {n : Nat}
    {p q : Query} (hr : render? (builtinEmit token) n r = some q)
    (hp : render? (builtinEmit token) n (.group join (r :: rs) tag) = some p) :
    let more := Query.following join
      (renderAll (builtinEmit token) (n + q.values.length) rs)
    p.text.toList = '(' :: (q.text.toList ++ (more.text.toList ++ [')'])) ∧
      p.values = q.values ++ more.values := by
  rw [render?, renderAll, hr] at hp
  have hp := Option.some.inj ((Query.enclose?_cons join q _).symm.trans hp)
  subst hp
  constructor <;> simp [Query.append_def]

theorem following_cons_of_render? {r : Rule} (join : Join) (rs : List Rule) {n : Nat} {q : Query}
    (hr : render? (builtinEmit token) n r = some q) :
    let more := Query.following join
      (renderAll (builtinEmit token) (n + q.values.length) rs)
    let all := Query.following join (renderAll (builtinEmit token) n (r :: rs))
    all.text.toList = (separator join).toList ++ (q.text.toList ++ more.text.toList) ∧
      all.values = q.values ++ more.values := by
  rw [renderAll, hr]
  simp only [Query.following_cons]
  constructor <;> simp [Query.append_def]

theorem condition_ne_paren {c : Condition} (h : c.IsPlain) {n : Nat} {p : Query}
    (hp : renderCondition? (builtinEmit token) n c = some p)
    (xs ys : List Char) : p.text.toList ++ xs ≠ '(' :: ys := by
  obtain ⟨e, -, -, hemit⟩ := h.exists_form
  obtain rfl := Option.some.inj ((h.render?_eq hemit token n).symm.trans hp)
  rw [e.2.toList_emit]
  intro he
  rcases e.2.front_cases with hf | hf
  · rw [hf, List.nil_append, List.append_assoc] at he
    exact word_append_ne h.1 h.2.1 rfl ys he
  · rw [hf] at he
    exact absurd (List.cons.inj he).1 (by decide)

theorem separator_append_inj {j k : Join} {xs ys : List Char}
    (h : (separator j).toList ++ xs = (separator k).toList ++ ys) : j = k ∧ xs = ys := by
  cases j <;> cases k
  · exact ⟨rfl, List.append_cancel_left h⟩
  · exact absurd (List.cons.inj (List.cons.inj h).2).1 (by decide)
  · exact absurd (List.cons.inj (List.cons.inj h).2).1 (by decide)
  · exact ⟨rfl, List.append_cancel_left h⟩

mutual

/-- **A plain rule is taken off a query in one way only.**  Where two texts and two lists of values
that begin with plain rules are equal, the rules agree and so does what stands behind them. -/
theorem agrees_of_append_eq : ∀ (r s : Rule), r.IsPlain → s.IsPlain →
    ∀ (n : Nat) (p q : Query) (rest rest' : List Char) (vs vs' : List Scalar),
      render? (builtinEmit token) n r = some p →
      render? (builtinEmit token) n s = some q →
      p.text.toList ++ rest = q.text.toList ++ rest' → p.values ++ vs = q.values ++ vs' →
      r.Agrees s ∧ rest = rest' ∧ vs = vs'
  | .condition c, .condition d, hc, hd, n, p, q, rest, rest', vs, vs', hp, hq, ht, hv =>
    Condition.agrees_of_append_eq hc hd hp hq ht hv
  | .condition c, .group k (s :: ss) tag, hc, hs, n, p, q, rest, rest', vs, vs', hp, hq, ht,
      hv => by
    obtain ⟨q0, hq0⟩ := exists_render? token s hs.2.1 n
    rw [(render?_group hq0 hq).1] at ht
    exact absurd ht (condition_ne_paren hc hp _ _)
  | .group j (r :: rs) tag, .condition d, hr, hd, n, p, q, rest, rest', vs, vs', hp, hq, ht,
      hv => by
    obtain ⟨p0, hp0⟩ := exists_render? token r hr.2.1 n
    rw [(render?_group hp0 hp).1] at ht
    exact absurd ht.symm (condition_ne_paren hd hq _ _)
  | .group j (r :: rs) tag, .group k (s :: ss) tag', hr, hs, n, p, q, rest, rest', vs, vs', hp, hq,
      ht, hv => by
    obtain ⟨p0, hp0⟩ := exists_render? token r hr.2.1 n
    obtain ⟨q0, hq0⟩ := exists_render? token s hs.2.1 n
    obtain ⟨htp, hvp⟩ := render?_group hp0 hp
    obtain ⟨htq, hvq⟩ := render?_group hq0 hq
    rw [htp, htq] at ht
    simp only [List.cons_append, List.append_assoc, List.cons.injEq, true_and,
      List.nil_append] at ht
    rw [hvp, hvq] at hv
    simp only [List.append_assoc] at hv
    obtain ⟨hfirst, ht', hv'⟩ :=
      agrees_of_append_eq r s hr.2.1 hs.2.1 n p0 q0 _ _ _ _ hp0 hq0 ht hv
    have hlen : p0.values = q0.values := by
      rw [hv'] at hv
      exact List.append_cancel_right hv
    rw [hlen] at ht' hv'
    obtain ⟨hall, hjoin, hrest, hvs⟩ :=
      allAgree_of_append_eq rs ss hr.2.2 hs.2.2 _ j k rest rest' vs vs' ht' hv'
    refine ⟨⟨?_, hfirst, hall⟩, hrest, hvs⟩
    intro h2
    apply hjoin
    rintro rfl
    exact absurd h2 (by simp)
  | .group _ [] _, _, hr, _, _, _, _, _, _, _, _, _, _, _, _ => absurd rfl hr.1
  | _, .group _ [] _, _, hs, _, _, _, _, _, _, _, _, _, _, _ => absurd rfl hs.1

/-- the members behind the first one: the word in front of each tells the join -/
theorem allAgree_of_append_eq : ∀ (rs ss : List Rule), ArePlain rs → ArePlain ss →
    ∀ (n : Nat) (j k : Join) (rest rest' : List Char) (vs vs' : List Scalar),
      (Query.following j (renderAll (builtinEmit token) n rs)).text.toList
          ++ ')' :: rest
        = (Query.following k (renderAll (builtinEmit token) n ss)).text.toList
          ++ ')' :: rest' →
      (Query.following j (renderAll (builtinEmit token) n rs)).values ++ vs
        = (Query.following k (renderAll (builtinEmit token) n ss)).values ++ vs' →
      AllAgree rs ss ∧ (rs ≠ [] → j = k) ∧ rest = rest' ∧ vs = vs'
  | [], [], _, _, n, j, k, rest, rest', vs, vs', ht, hv =>
    ⟨trivial, fun h => absurd rfl h, (List.cons.inj ht).2, hv⟩
  | [], s :: ss, _, hs, n, j, k, rest, rest', vs, vs', ht, hv => by
    obtain ⟨q0, hq0⟩ := exists_render? token s hs.1 n
    rw [(following_cons_of_render? k ss hq0).1] at ht
    cases k <;> exact absurd (List.cons.inj ht).1 (by decide)
  | r :: rs, [], hr, _, n, j, k, rest, rest', vs, vs', ht, hv => by
    obtain ⟨p0, hp0⟩ := exists_render? token r hr.1 n
    rw [(following_cons_of_render? j rs hp0).1] at ht
    cases j <;> exact absurd (List.cons.inj ht).1 (by decide)
  | r :: rs, s :: ss, hr, hs, n, j, k, rest, rest', vs, vs', ht, hv => by
    obtain ⟨p0, hp0⟩ := exists_render? token r hr.1 n
    obtain ⟨q0, hq0⟩ := exists_render? token s hs.1 n
    obtain ⟨htp, hvp⟩ := following_cons_of_render? j rs hp0
    obtain ⟨htq, hvq⟩ := following_cons_of_render? k ss hq0
    rw [htp, htq] at ht
    rw [hvp, hvq] at hv
    simp only [List.append_assoc] at ht hv
    obtain ⟨rfl, ht⟩ := separator_append_inj ht
    obtain ⟨hfirst, ht', hv'⟩ :=
      agrees_of_append_eq r s hr.1 hs.1 n p0 q0 _ _ _ _ hp0 hq0 ht hv
    have hlen : p0.values = q0.values := by
      rw [hv'] at hv
      exact List.append_cancel_right hv
    rw [hlen] at ht' hv'
    obtain ⟨hall, -, hrest, hvs⟩ :=
      allAgree_of_append_eq rs ss hr.2 hs.2 _ j j rest rest' vs vs' ht' hv'
    exact ⟨⟨hfirst, hall⟩, fun _ => rfl, hrest, hvs⟩

end

theorem query_builtin (token : String) (r : Rule) :
    r.query .builtin token = r.rendered Operators.builtinEntries token :=
  query_insertAll Operators.isPositional_builtin token r

/-- **Plain rules with the same query agree**: in shape, in every field and operator, in every join
that stands between two members, and in every value that is compared with. -/
theorem agrees_of_query_eq (token : String) (r s : Rule) (hr : r.IsPlain) (hs : s.IsPlain)
    (h : r.query .builtin token = s.query .builtin token) : r.Agrees s := by
  obtain ⟨p, hp⟩ := exists_render? token r hr 0
  obtain ⟨q, hq⟩ := exists_render? token s hs 0
  rw [query_builtin, query_builtin, rendered, rendered, hp, hq] at h
  have hpq : p = q := h
  exact (agrees_of_append_eq r s hr hs 0 p q [] [] [] [] hp hq (by rw [hpq]) (by rw [hpq])).1

/-- fields that are spelled like the words and signs of a query; the rules differ in what it does
not show -/
theorem agrees_of_query_eq_words :
    let r : Rule := .group .or [.group .and [.condition ⟨"and", "is-null", .bool true, none⟩] none,
      .condition ⟨"NULL", "greater-than-or-equal", .text ">", none⟩] none
    let s : Rule := .group .or [.group .or [.condition ⟨"and", "is-null", .null, some "x"⟩] none,
      .condition ⟨"NULL", "greater-than-or-equal", .text ">", none⟩] (some "")
    r.IsPlain ∧ s.IsPlain ∧ r.query .builtin defaultToken = s.query .builtin defaultToken ∧
      r.Agrees s := by
  intro r s
  have hr : r.IsPlain := by
    simp only [r, IsPlain, ArePlain]
    decide +kernel
  have hs : s.IsPlain := by
    simp only [s, IsPlain, ArePlain]
    decide +kernel
  have h : r.query .builtin defaultToken = s.query .builtin defaultToken := by
    rw [query_builtin, query_builtin]
    decide +kernel
  exact ⟨hr, hs, h, agrees_of_query_eq _ r s hr hs h⟩

end Rule
end SavedFilter
