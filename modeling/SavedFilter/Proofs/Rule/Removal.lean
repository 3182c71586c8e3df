import SavedFilter.Proofs.Rule.Search

/-!
# Taking rules out by their tag

A removal works through the members of one group after the other, each time taking out the rules
that carry the tag and going down into the others.  On the lines of the tree it is one filter:

* `lines_withoutAll`       the lines in which no rule carries the tag are left;
* `countAmong_eq`          counted are the lines in which only the last rule carries it;
* `remove_complete`        so nothing that carries the tag is left, and nothing else is lost;
* `remove_push`            a rule that has been put at the end comes out again by its tag;
* `replaceEach_eq`         so of rules put in one in place of the other the last one is left.
-/

namespace SavedFilter
namespace Rule

/-! ## lines and a tag -/

/-- no rule of the line carries the tag -/
def isClear (tag : String) (line : List Rule) : Bool := line.all fun r => !r.carries tag

/-- the rule at the end of the line carries the tag, and no group above it does -/
def isTopmost (tag : String) (line : List Rule) : Bool :=
  line.getLast?.any (carries tag) && isClear tag line.dropLast

section
variable (tag : String)

theorem carries_bare (r : Rule) : r.bare.carries tag = r.carries tag := by
  rw [carries, carries, tag_bare]

theorem isTopmost_cons {line : List Rule} (h : line ≠ []) (r : Rule) :
    isTopmost tag (r :: line) = (!r.carries tag && isTopmost tag line) := by
  rw [isTopmost, isTopmost, List.getLast?_cons_of_ne_nil h, List.dropLast_cons_of_ne_nil h,
    Bool.and_left_comm]
  rfl

theorem isClear_cons (r : Rule) (line : List Rule) :
    isClear tag (r.bare :: line) = (!r.carries tag && isClear tag line) := by
  rw [← carries_bare]
  rfl

/-- with a rule that carries the tag all lines through it go -/
theorem filter_isClear_map_cons (r : Rule) (ls : List (List Rule)) :
    (ls.map (r.bare :: ·)).filter (isClear tag) =
      if r.tag = some tag then [] else (ls.filter (isClear tag)).map (r.bare :: ·) := by
  rw [List.filter_map]
  split_ifs with h
  · have hr := carries_iff.mpr h
    simp [Function.comp_def, isClear_cons, hr]
  · have hr := carries_eq_false_iff.mpr h
    simp [Function.comp_def, isClear_cons, hr]

/-- of the lines through a rule that carries the tag its own is counted -/
theorem countP_isTopmost_map_cons (r : Rule) {ls : List (List Rule)} (hls : [] ∉ ls) :
    (([] :: ls).map (r.bare :: ·)).countP (isTopmost tag) =
      if r.tag = some tag then 1 else ls.countP (isTopmost tag) := by
  have hcons : ls.countP (isTopmost tag ∘ (r.bare :: ·)) =
      ls.countP fun line => !r.carries tag && isTopmost tag line := by
    apply List.countP_congr
    intro line hline
    have hne : line ≠ [] := fun h => hls (h ▸ hline)
    rw [Function.comp_apply, isTopmost_cons tag hne, carries_bare]
  have hown : (isTopmost tag ∘ (r.bare :: ·)) [] = r.carries tag := by
    rw [← carries_bare]
    exact Bool.and_true _
  rw [List.countP_map, List.countP_cons, hcons, hown]
  by_cases h : r.tag = some tag
  · simp [h, carries_iff.mpr h]
  · simp [h, carries_eq_false_iff.mpr h]

/-! ## what is left and what is counted -/

theorem bare_without (r : Rule) : (without tag r).bare = r.bare := by cases r <;> rfl

theorem withoutAll_append (rs ss : List Rule) :
    withoutAll tag (rs ++ ss) = withoutAll tag rs ++ withoutAll tag ss := by
  induction rs with
  | nil => rfl
  | cons r rs ih =>
    rw [List.cons_append, withoutAll, withoutAll, ih]
    split_ifs <;> rfl

theorem countAmong_append (rs ss : List Rule) :
    countAmong tag (rs ++ ss) = countAmong tag rs + countAmong tag ss := by
  induction rs with
  | nil => exact (Nat.zero_add _).symm
  | cons r rs ih => rw [List.cons_append, countAmong, countAmong, ih, Nat.add_assoc]

mutual

theorem linesBelow_without : ∀ r : Rule,
    linesBelow (without tag r) = (linesBelow r).filter (isClear tag)
  | .condition _ => rfl
  | .group _ members _ => lines_withoutAll members

/-- **The lines in which no rule carries the tag are left.** -/
theorem lines_withoutAll : ∀ rs : List Rule,
    lines (withoutAll tag rs) = (lines rs).filter (isClear tag)
  | [] => rfl
  | r :: rs => by
    show _ = (([] :: linesBelow r).map (r.bare :: ·) ++ lines rs).filter (isClear tag)
    rw [List.filter_append, filter_isClear_map_cons, withoutAll, ← lines_withoutAll rs]
    split_ifs
    · rfl
    · show ([] :: linesBelow (without tag r)).map ((without tag r).bare :: ·) ++ _ = _
      rw [bare_without, linesBelow_without r]
      rfl

end

mutual

theorem countBelow_eq : ∀ r : Rule, countBelow tag r = (linesBelow r).countP (isTopmost tag)
  | .condition _ => rfl
  | .group _ members _ => countAmong_eq members

/-- **Counted are the lines in which only the last rule carries the tag.** -/
theorem countAmong_eq : ∀ rs : List Rule, countAmong tag rs = (lines rs).countP (isTopmost tag)
  | [] => rfl
  | r :: rs => by
    have hne : [] ∉ linesBelow r := fun h => ne_nil_of_mem_linesBelow h rfl
    show _ = (([] :: linesBelow r).map (r.bare :: ·) ++ lines rs).countP (isTopmost tag)
    rw [List.countP_append, countP_isTopmost_map_cons tag r hne, countAmong, countBelow_eq r,
      countAmong_eq rs]

end

/-! ## trees without the tag -/

mutual

theorem countBelow_eq_zero_iff : ∀ r : Rule, countBelow tag r = 0 ↔ findBelow? tag r = none
  | .condition _ => iff_of_true rfl rfl
  | .group _ members _ => countAmong_eq_zero_iff members

theorem countAmong_eq_zero_iff : ∀ rs : List Rule,
    countAmong tag rs = 0 ↔ findAmong? tag rs = none
  | [] => iff_of_true rfl rfl
  | r :: rs => by
    rw [countAmong, findAmong?_cons, Nat.add_eq_zero_iff, Option.or_eq_none_iff,
      countAmong_eq_zero_iff rs]
    refine and_congr_left fun _ => ?_
    by_cases h : r.tag = some tag
    · rw [if_pos h, if_pos h]
      exact iff_of_false Nat.one_ne_zero (Option.some_ne_none r)
    · rw [if_neg h, if_neg h]
      exact countBelow_eq_zero_iff r

end

mutual

theorem findBelow?_eq_none_iff_clear : ∀ r : Rule,
    findBelow? tag r = none ↔ ∀ line ∈ linesBelow r, isClear tag line = true
  | .condition _ => iff_of_true rfl (List.forall_mem_nil _)
  | .group _ members _ => findAmong?_eq_none_iff_clear members

/-- nothing is found if and only if the tag is in no line -/
theorem findAmong?_eq_none_iff_clear : ∀ rs : List Rule,
    findAmong? tag rs = none ↔ ∀ line ∈ lines rs, isClear tag line = true
  | [] => iff_of_true rfl (List.forall_mem_nil _)
  | r :: rs => by
    rw [findAmong?_cons, Option.or_eq_none_iff, findAmong?_eq_none_iff_clear rs, lines,
      List.forall_mem_append, List.forall_mem_map]
    refine and_congr_left fun _ => ?_
    simp only [isClear_cons, Bool.and_eq_true, Bool.not_eq_true', carries_eq_false_iff]
    by_cases h : r.tag = some tag
    · rw [if_pos h]
      exact iff_of_false (Option.some_ne_none r) fun hall => (hall [] List.mem_cons_self).1 h
    · rw [if_neg h, findBelow?_eq_none_iff_clear r, List.forall_mem_cons]
      exact ⟨fun hall => ⟨⟨h, rfl⟩, fun line hline => ⟨h, hall line hline⟩⟩,
        fun hall line hline => (hall.2 line hline).2⟩

end

variable {tag} {rs : List Rule}

theorem withoutAll_eq_self_iff : withoutAll tag rs = rs ↔ findAmong? tag rs = none := by
  rw [findAmong?_eq_none_iff_clear, ← List.filter_eq_self, ← lines_withoutAll]
  exact ⟨congrArg lines, eq_of_lines_eq _ _⟩

theorem findAmong?_withoutAll (tag : String) (rs : List Rule) :
    findAmong? tag (withoutAll tag rs) = none := by
  rw [findAmong?_eq_none_iff_clear, lines_withoutAll]
  exact fun line h => (List.mem_filter.mp h).2

end

theorem withoutAll_comm (tag tag' : String) (rs : List Rule) :
    withoutAll tag' (withoutAll tag rs) = withoutAll tag (withoutAll tag' rs) := by
  apply eq_of_lines_eq
  rw [lines_withoutAll, lines_withoutAll, lines_withoutAll, lines_withoutAll, List.filter_comm]

end Rule

/-! ## removal -/

namespace Group
open Rule

/-- **Removal is complete, minimal and counted.**  The lines of a tree list the rules below its root
in pre-order, each by the groups around it and by itself, and by all that these have of their own.
What is left of a group is the one with the same root and with those lines in which no rule carries
the tag.  The rules that are counted are those that carry it while no group around them does.  So no
rule with the tag is left; none is counted if and only if none could be found, and if and only if
nothing has changed; a second removal takes nothing out, and two tags may be removed in either
order. -/
theorem remove_complete (g : Group) (tag tag' : String) :
    g.lines.map List.getLast? = g.descendants.map (fun r => some r.bare) ∧
    (∀ h : Group, h = (g.remove tag).1 ↔
      h.join = g.join ∧ h.tag = g.tag ∧ h.lines = g.lines.filter (isClear tag)) ∧
    (g.remove tag).2 = g.lines.countP (isTopmost tag) ∧
    (∀ r ∈ (g.remove tag).1.descendants, r.tag ≠ some tag) ∧
    (g.remove tag).1.find? tag = none ∧
    ((g.remove tag).2 = 0 ↔ g.find? tag = none) ∧
    (g.find? tag = none ↔ (g.remove tag).1 = g) ∧
    (g.remove tag).1.remove tag = ((g.remove tag).1, 0) ∧
    ((g.remove tag).1.remove tag').1 = ((g.remove tag').1.remove tag).1 := by
  obtain ⟨join, members, t⟩ := g
  have hnone : findAmong? tag (withoutAll tag members) = none := findAmong?_withoutAll tag members
  refine ⟨getLast?_lines members, ?_, countAmong_eq tag members,
    findAmong?_eq_none_iff.mp hnone, hnone, countAmong_eq_zero_iff tag members, ?_, ?_, ?_⟩
  · rintro ⟨join', members', t'⟩
    show Group.mk join' members' t' = ⟨join, withoutAll tag members, t⟩ ↔
      join' = join ∧ t' = t ∧ Rule.lines members' = (Rule.lines members).filter (isClear tag)
    rw [← lines_withoutAll, Group.mk.injEq, and_comm (a := t' = t)]
    exact and_congr_right fun _ => and_congr_left fun _ =>
      ⟨congrArg Rule.lines, eq_of_lines_eq _ _⟩
  · show findAmong? tag members = none ↔ Group.mk join (withoutAll tag members) t = _
    rw [Group.mk.injEq, withoutAll_eq_self_iff]
    simp only [true_and, and_true]
  · show (Group.mk join (withoutAll tag (withoutAll tag members)) t,
      countAmong tag (withoutAll tag members)) = (⟨join, withoutAll tag members, t⟩, 0)
    rw [withoutAll_eq_self_iff.mpr hnone, (countAmong_eq_zero_iff tag _).mpr hnone]
  · exact congrArg (Group.mk join · t) (withoutAll_comm tag tag' members)

/-! ## replacement -/

/-- the rules that carry the tag taken out, and another rule put in at the end -/
def replace (g : Group) (tag : String) (r : Rule) : Group × Nat :=
  ((g.remove tag).1.push r, (g.remove tag).2)

/-- rules put in one after the other, each time after those with the tag have been taken out, and
how many these were -/
def replaceEach (tag : String) : Group → List Rule → Group × List Nat
  | g, [] => (g, [])
  | g, r :: rs =>
    let rest := replaceEach tag (g.replace tag r).1 rs
    (rest.1, (g.replace tag r).2 :: rest.2)

section
variable {g : Group} {tag : String}

/-- where no rule carries the tag, a rule that has been put in with it comes out again alone -/
theorem remove_push {r : Rule} (hg : g.find? tag = none) (hr : r.tag = some tag) :
    (g.push r).remove tag = (g, 1) := by
  obtain ⟨join, members, t⟩ := g
  have hleft : withoutAll tag [r] = [] := by rw [withoutAll, if_pos hr, withoutAll]
  have hcount : countAmong tag [r] = 1 := by rw [countAmong, if_pos hr, countAmong]
  show (Group.mk join (withoutAll tag (members ++ [r])) t, countAmong tag (members ++ [r])) = _
  rw [withoutAll_append, countAmong_append, hleft, hcount, List.append_nil,
    withoutAll_eq_self_iff.mpr hg, (countAmong_eq_zero_iff tag members).mpr hg]

/-- what is found in a group is found with another rule at its end -/
theorem find?_push (g : Group) (r : Rule) (tag : String) :
    (g.push r).find? tag = (g.find? tag).or (findAmong? tag [r]) :=
  findAmong?_append tag g.members [r]

/-- each rule that is put in with the tag takes the place of the one before it -/
theorem replaceEach_push {r : Rule} {rs : List Rule} (hg : g.find? tag = none)
    (hr : r.tag = some tag) (hrs : ∀ s ∈ rs, s.tag = some tag) :
    replaceEach tag (g.push r) rs =
      (g.push ((r :: rs).getLast (List.cons_ne_nil r rs)), List.replicate rs.length 1) := by
  induction rs generalizing r with
  | nil => rfl
  | cons s rs ih =>
    obtain ⟨hs, hrs⟩ := List.forall_mem_cons.mp hrs
    have hstep : (g.push r).replace tag s = (g.push s, 1) := by rw [replace, remove_push hg hr]
    rw [replaceEach, hstep, ih hs hrs]
    rfl

end

/-- **A rule is replaced by its tag.**  When rules that carry the tag, whatever stands below them,
are put in one after the other, each time after the rules with the tag have been taken out, then the
last of them is left at the end, behind what the first removal has left.  Every later removal takes
out the one rule that was put in before it.  The tag then finds the last rule, and every other tag
finds what it found after the first removal. -/
theorem replaceEach_eq (g : Group) (tag : String) {rs : List Rule} (hne : rs ≠ [])
    (hrs : ∀ r ∈ rs, r.tag = some tag) :
    (g.replaceEach tag rs).1 = ⟨g.join, (g.remove tag).1.members ++ [rs.getLast hne], g.tag⟩ ∧
    (g.replaceEach tag rs).2 = (g.remove tag).2 :: List.replicate (rs.length - 1) 1 ∧
    (g.replaceEach tag rs).1.find? tag = some (rs.getLast hne) ∧
    ∀ tag' r, (g.remove tag).1.find? tag' = some r →
      (g.replaceEach tag rs).1.find? tag' = some r := by
  cases rs with
  | nil => exact absurd rfl hne
  | cons r rs =>
    have hnone : (g.remove tag).1.find? tag = none := findAmong?_withoutAll tag g.members
    have hrun : g.replaceEach tag (r :: rs) = ((g.remove tag).1.push ((r :: rs).getLast hne),
        (g.remove tag).2 :: List.replicate rs.length 1) := by
      obtain ⟨hr, hrs⟩ := List.forall_mem_cons.mp hrs
      rw [replaceEach, replace, replaceEach_push hnone hr hrs]
    have hfound : findAmong? tag [(r :: rs).getLast hne] = some ((r :: rs).getLast hne) := by
      rw [findAmong?, if_pos (hrs _ (List.getLast_mem hne))]
    rw [hrun]
    refine ⟨rfl, rfl, ?_, ?_⟩
    · rw [find?_push, hnone, hfound, Option.none_or]
    · intro tag' s hs
      rw [find?_push, hs, Option.some_or]

/-- a group with the tag, as has one of its conditions -/
def quickSearch (word : String) : Rule :=
  .group .or [.condition ⟨"Name", "contains", .text word, some "quick"⟩,
    .condition ⟨"Description", "contains", .text word, none⟩] (some "quick")

def rankOnly : Rule := .condition ⟨"Rank", "", .null, some "rank"⟩

/-- a quick search made anew two times -/
theorem replaceEach_eq_quickSearch :
    (∀ r ∈ [quickSearch "berry", quickSearch "apple"], r.tag = some "quick") ∧
    replaceEach "quick" ⟨.and, [rankOnly, quickSearch "nut"], none⟩
      [quickSearch "berry", quickSearch "apple"] =
        (⟨.and, [rankOnly, quickSearch "apple"], none⟩, [1, 1]) ∧
    find? ⟨.and, [rankOnly, quickSearch "apple"], none⟩ "quick" = some (quickSearch "apple") ∧
    find? ⟨.and, [rankOnly, quickSearch "apple"], none⟩ "rank" = some rankOnly := by
  have hrs : ∀ r ∈ [quickSearch "berry", quickSearch "apple"], r.tag = some "quick" :=
    List.forall_mem_cons.mpr ⟨rfl, List.forall_mem_singleton.mpr rfl⟩
  obtain ⟨hgroup, hcounts, hlast, hothers⟩ := replaceEach_eq
    ⟨.and, [rankOnly, quickSearch "nut"], none⟩ "quick" (List.cons_ne_nil _ _) hrs
  exact ⟨hrs, Prod.ext hgroup hcounts, hlast, hothers "rank" rankOnly rfl⟩

end Group
end SavedFilter
