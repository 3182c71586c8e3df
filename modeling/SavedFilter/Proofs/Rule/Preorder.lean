import Mathlib.Data.List.Basic
import SavedFilter.Rule.Basic

/-!
# The rules of a tree in pre-order

A tree has three views beside its own shape:

* `at?`          the rule at a path, which goes from a group to one of its members;
* `preorder`     the rules in the order in which they are written, each in front of those below it;
* `lines`        the same order, where each rule is listed with all groups above it, and none of
                 them with its members.

A rule is listed if and only if there is a path to it (`mem_preorder_iff`), the lines end with the
rules of the list (`getLast?_lines`), and they tell the whole tree (`eq_of_lines_eq`).
-/

namespace SavedFilter
namespace Rule

/-! ## paths -/

/-- the members of a group -/
def members : Rule → List Rule
  | .condition _ => []
  | .group _ members _ => members

/-- the rule at a path -/
def at? (r : Rule) : List Nat → Option Rule
  | [] => some r
  | i :: path => r.members[i]?.bind fun s => s.at? path

/-- the same for a path that begins with a place in a list -/
def atAmong? (rs : List Rule) : List Nat → Option Rule
  | [] => none
  | i :: path => rs[i]?.bind fun r => r.at? path

/-! ## pre-order -/

mutual

/-- the rules below a rule, each in front of those below it -/
def descendants : Rule → List Rule
  | .condition _ => []
  | .group _ members _ => preorder members

def preorder : List Rule → List Rule
  | [] => []
  | r :: rs => r :: (descendants r ++ preorder rs)

end

theorem preorder_cons (r : Rule) (rs : List Rule) :
    preorder (r :: rs) = r :: (descendants r ++ preorder rs) := rfl

theorem preorder_append (rs ss : List Rule) :
    preorder (rs ++ ss) = preorder rs ++ preorder ss := by
  induction rs with
  | nil => rfl
  | cons r rs ih =>
    rw [List.cons_append, preorder_cons, preorder_cons, ih, List.cons_append, List.append_assoc]

mutual

theorem mem_descendants_iff : ∀ (r : Rule) {s : Rule},
    s ∈ descendants r ↔ ∃ i path, r.at? (i :: path) = some s
  | .condition _, _ => by
    constructor
    · intro h
      exact nomatch h
    · rintro ⟨i, path, h⟩
      exact nomatch h
  | .group join members tag, s => by
    show s ∈ preorder members ↔ _
    rw [mem_preorder_iff members]
    constructor
    · rintro ⟨path, h⟩
      cases path with
      | nil => exact nomatch h
      | cons i path => exact ⟨i, path, h⟩
    · rintro ⟨i, path, h⟩
      exact ⟨i :: path, h⟩

/-- a rule is listed if and only if there is a path to it -/
theorem mem_preorder_iff : ∀ (rs : List Rule) {s : Rule},
    s ∈ preorder rs ↔ ∃ path, atAmong? rs path = some s
  | [], _ => by
    constructor
    · intro h
      exact nomatch h
    · rintro ⟨_ | ⟨i, path⟩, h⟩
      · exact nomatch h
      · exact nomatch h
  | r :: rs, s => by
    rw [preorder_cons, List.mem_cons, List.mem_append, mem_descendants_iff r, mem_preorder_iff rs]
    constructor
    · rintro (rfl | ⟨i, path, h⟩ | ⟨path, h⟩)
      · exact ⟨[0], rfl⟩
      · exact ⟨0 :: i :: path, h⟩
      · cases path with
        | nil => exact nomatch h
        | cons i path => exact ⟨(i + 1) :: path, h⟩
    · rintro ⟨path, h⟩
      match path with
      | [] => exact nomatch h
      | [0] => exact .inl (Option.some.inj h).symm
      | 0 :: i :: path => exact .inr (.inl ⟨i, path, h⟩)
      | (i + 1) :: path => exact .inr (.inr ⟨i :: path, h⟩)

end

/-! ## lines -/

/-- a rule without its members -/
def bare : Rule → Rule
  | .condition c => .condition c
  | .group join _ tag => .group join [] tag

theorem tag_bare (r : Rule) : r.bare.tag = r.tag := by cases r <;> rfl

mutual

/-- The lines of the rules below a rule.  A line begins with the outermost group and ends with the
rule itself. -/
def linesBelow : Rule → List (List Rule)
  | .condition _ => []
  | .group _ members _ => lines members

def lines : List Rule → List (List Rule)
  | [] => []
  | r :: rs => ([] :: linesBelow r).map (r.bare :: ·) ++ lines rs

end

theorem lines_cons (r : Rule) (rs : List Rule) :
    lines (r :: rs) = [r.bare] :: ((linesBelow r).map (r.bare :: ·) ++ lines rs) := rfl

theorem ne_nil_of_mem_lines {rs : List Rule} {line : List Rule} (h : line ∈ lines rs) :
    line ≠ [] := by
  induction rs with
  | nil => exact nomatch h
  | cons r rs ih =>
    rcases List.mem_append.mp h with h | h
    · obtain ⟨l, -, rfl⟩ := List.mem_map.mp h
      exact List.cons_ne_nil _ _
    · exact ih h

theorem ne_nil_of_mem_linesBelow {r : Rule} {line : List Rule} (h : line ∈ linesBelow r) :
    line ≠ [] := by
  cases r with
  | condition c => exact nomatch h
  | group join members tag => exact ne_nil_of_mem_lines h

mutual

theorem getLast?_linesBelow : ∀ r : Rule,
    (linesBelow r).map List.getLast? = (descendants r).map fun s => some s.bare
  | .condition _ => rfl
  | .group _ members _ => getLast?_lines members

/-- the lines end with the rules of the tree, in their order -/
theorem getLast?_lines : ∀ rs : List Rule,
    (lines rs).map List.getLast? = (preorder rs).map fun s => some s.bare
  | [] => rfl
  | r :: rs => by
    have hbelow : ((linesBelow r).map (r.bare :: ·)).map List.getLast? =
        (linesBelow r).map List.getLast? := by
      rw [List.map_map]
      apply List.map_congr_left
      intro line h
      exact List.getLast?_cons_of_ne_nil (ne_nil_of_mem_linesBelow h)
    rw [lines_cons, preorder_cons, List.map_cons, List.map_append, hbelow, getLast?_linesBelow r,
      getLast?_lines rs, List.map_cons, List.map_append]
    rfl

end

/-- the lines of a rule and those below it are longer than the line with which the next rule of the
list begins -/
theorem takeWhile_lines (r : Rule) (rs : List Rule) :
    ((linesBelow r).map (r.bare :: ·) ++ lines rs).takeWhile (fun line => 1 < line.length) =
      (linesBelow r).map (r.bare :: ·) := by
  have hlong : ∀ line ∈ (linesBelow r).map (r.bare :: ·), decide (1 < line.length) = true := by
    intro line h
    obtain ⟨l, hl, rfl⟩ := List.mem_map.mp h
    have := List.length_pos_iff.mpr (ne_nil_of_mem_linesBelow hl)
    exact decide_eq_true (Nat.succ_lt_succ this)
  have hshort : (lines rs).takeWhile (fun line => 1 < line.length) = [] := by cases rs <;> rfl
  rw [List.takeWhile_append_of_pos hlong, hshort, List.append_nil]

mutual

theorem eq_of_linesBelow_eq : ∀ (r s : Rule), r.bare = s.bare → linesBelow r = linesBelow s → r = s
  | .condition _, .condition _, hbare, _ => hbare
  | .condition _, .group _ _ _, hbare, _ => nomatch hbare
  | .group _ _ _, .condition _, hbare, _ => nomatch hbare
  | .group join members tag, .group join' members' tag', hbare, hlines => by
    obtain ⟨rfl, -, rfl⟩ := group.inj hbare
    rw [eq_of_lines_eq members members' hlines]

/-- **The lines tell the tree.** -/
theorem eq_of_lines_eq : ∀ rs ss : List Rule, lines rs = lines ss → rs = ss
  | [], [], _ => rfl
  | [], _ :: _, h => nomatch h
  | _ :: _, [], h => nomatch h
  | r :: rs, s :: ss, h => by
    rw [lines_cons, lines_cons] at h
    obtain ⟨hhead, htail⟩ := List.cons.inj h
    have hbare : r.bare = s.bare := (List.cons.inj hhead).1
    have hlong := congrArg (List.takeWhile fun line : List Rule => 1 < line.length) htail
    rw [takeWhile_lines, takeWhile_lines] at hlong
    have hbelow : linesBelow r = linesBelow s := by
      rw [hbare] at hlong
      exact List.map_injective_iff.mpr List.cons_injective hlong
    rw [hlong] at htail
    rw [eq_of_linesBelow_eq r s hbare hbelow,
      eq_of_lines_eq rs ss (List.append_cancel_left htail)]

end

end Rule

namespace Group

/-- the rules below the root in pre-order -/
def descendants (g : Group) : List Rule := Rule.preorder g.members

/-- the rule at a path that begins with a member of the root -/
def at? (g : Group) (path : List Nat) : Option Rule := Rule.atAmong? g.members path

/-- the lines of the rules below the root, which stands in none of them -/
def lines (g : Group) : List (List Rule) := Rule.lines g.members

end Group
end SavedFilter
