import Mathlib.Data.List.Lex
import SavedFilter.Proofs.Rule.Preorder
import SavedFilter.Rule.Edit

/-!
# Which rule is found

Several rules may carry the same tag.  The search tests a rule, goes down into it and then on to the
next one, and stops at the first rule that carries the tag:

* `findAmong?_eq`    the first in pre-order;
* `IsFirst`          at a path stands a rule with the tag, and at none of the paths in front of it;
* `FindsFirst`       what is found stands at such a path, or there is no rule with the tag;
* `find?_first`      so a group comes before all that it holds, and what a rule holds before the
                     rules behind it.

In the order of lists of numbers a path stands in front of those that go on from it, and both stand
in front of the paths to later members.
-/

namespace SavedFilter
namespace Rule

/-- a tag is compared as a whole, and a rule without a tag carries none -/
def carries (tag : String) (r : Rule) : Bool := r.tag == some tag

section
variable {tag : String} {r : Rule} {rs : List Rule}

theorem carries_iff : r.carries tag = true ↔ r.tag = some tag := beq_iff_eq

theorem carries_eq_false_iff : r.carries tag = false ↔ r.tag ≠ some tag := beq_eq_false_iff_ne

/-! ## the search in pre-order -/

theorem findAmong?_cons (tag : String) (r : Rule) (rs : List Rule) :
    findAmong? tag (r :: rs) =
      (if r.tag = some tag then some r else findBelow? tag r).or (findAmong? tag rs) := by
  rw [findAmong?]
  split_ifs with h
  · rfl
  · cases findBelow? tag r <;> rfl

mutual

theorem findBelow?_eq (tag : String) : ∀ r : Rule,
    findBelow? tag r = (descendants r).find? (carries tag)
  | .condition _ => rfl
  | .group _ members _ => findAmong?_eq tag members

/-- the first rule in pre-order is found -/
theorem findAmong?_eq (tag : String) : ∀ rs : List Rule,
    findAmong? tag rs = (preorder rs).find? (carries tag)
  | [] => rfl
  | r :: rs => by
    rw [findAmong?_cons, preorder_cons, List.find?_cons, findBelow?_eq tag r, findAmong?_eq tag rs]
    cases h : r.carries tag with
    | true => rw [if_pos (carries_iff.mp h), Option.some_or]
    | false => rw [if_neg (carries_eq_false_iff.mp h), List.find?_append]

end

theorem findAmong?_eq_none_iff :
    findAmong? tag rs = none ↔ ∀ r ∈ preorder rs, r.tag ≠ some tag := by
  rw [findAmong?_eq, List.find?_eq_none]
  simp only [carries_iff]

theorem findAmong?_append (tag : String) (rs ss : List Rule) :
    findAmong? tag (rs ++ ss) = (findAmong? tag rs).or (findAmong? tag ss) := by
  rw [findAmong?_eq, findAmong?_eq, findAmong?_eq, preorder_append, List.find?_append]

end

/-! ## the search by paths -/

section
variable {view : List Nat → Option Rule} {tag : String} {path : List Nat} {r s : Rule}
  {rs : List Rule}

/-- at a path stands a rule with the tag, and at none of the paths in front of it -/
def IsFirst (view : List Nat → Option Rule) (tag : String) (path : List Nat) (r : Rule) : Prop :=
  (view path = some r ∧ r.tag = some tag) ∧ ∀ q < path, ∀ s, view q = some s → s.tag ≠ some tag

/-- what is found is the first rule with the tag, or there is none -/
def FindsFirst (view : List Nat → Option Rule) (tag : String) : Option Rule → Prop
  | none => ∀ path s, view path = some s → s.tag ≠ some tag
  | some r => ∃ path, IsFirst view tag path r

/-- there is one first path -/
theorem IsFirst.unique {path' : List Nat} (h : IsFirst view tag path r)
    (h' : IsFirst view tag path' s) : r = s := by
  rcases lt_trichotomy path path' with hlt | rfl | hlt
  · exact absurd h.1.2 (h'.2 path hlt r h.1.1)
  · exact Option.some.inj (h.1.1.symm.trans h'.1.1)
  · exact absurd h'.1.2 (h.2 path' hlt s h'.1.1)

theorem eq_some_iff_of_findsFirst {found : Option Rule} (h : FindsFirst view tag found) :
    found = some r ↔ ∃ path, IsFirst view tag path r := by
  cases found with
  | none =>
    refine iff_of_false nofun ?_
    rintro ⟨path, hpath, -⟩
    exact h path r hpath.1 hpath.2
  | some s =>
    obtain ⟨path, hs⟩ := h
    constructor
    · rintro ⟨⟩
      exact ⟨path, hs⟩
    · rintro ⟨path', hr⟩
      rw [hs.unique hr]

/-- a rule comes before those below it -/
theorem findsFirst_at? (h : FindsFirst (atAmong? r.members) tag (findBelow? tag r)) :
    FindsFirst r.at? tag (if r.tag = some tag then some r else findBelow? tag r) := by
  by_cases htag : r.tag = some tag
  · rw [if_pos htag]
    exact ⟨[], ⟨rfl, htag⟩, fun q hq => absurd hq (List.not_lt_nil q)⟩
  rw [if_neg htag]
  have hhere : ∀ s, r.at? [] = some s → s.tag ≠ some tag := by
    intro s hs
    rwa [← Option.some.inj hs]
  cases hfound : findBelow? tag r with
  | none =>
    rw [hfound] at h
    intro path s hs
    cases path with
    | nil => exact hhere s hs
    | cons i path => exact h (i :: path) s hs
  | some found =>
    rw [hfound] at h
    obtain ⟨path, hpath, hfirst⟩ := h
    cases path with
    | nil => exact nomatch hpath.1
    | cons i path =>
      refine ⟨i :: path, hpath, ?_⟩
      intro q hq s hs
      cases q with
      | nil => exact hhere s hs
      | cons j q => exact hfirst (j :: q) hq s hs

/-- the first rule of a list, with those below it, comes before all others -/
theorem findsFirst_cons {x y : Option Rule} (hr : FindsFirst r.at? tag x)
    (hrs : FindsFirst (atAmong? rs) tag y) : FindsFirst (atAmong? (r :: rs)) tag (x.or y) := by
  cases x with
  | some found =>
    obtain ⟨path, hpath, hfirst⟩ := hr
    refine ⟨0 :: path, hpath, ?_⟩
    intro q hq s hs
    cases q with
    | nil => cases hs
    | cons j q =>
      obtain hj | ⟨rfl, hrest⟩ := List.cons_lt_cons_iff.mp hq
      · exact absurd hj (Nat.not_lt_zero j)
      · exact hfirst q hrest s hs
  | none =>
    rw [Option.none_or]
    cases y with
    | none =>
      intro path s hs
      rcases path with _ | ⟨_ | i, path⟩
      · cases hs
      · exact hr path s hs
      · exact hrs (i :: path) s hs
    | some found =>
      obtain ⟨path, hpath, hfirst⟩ := hrs
      cases path with
      | nil => cases hpath.1
      | cons i path =>
        refine ⟨(i + 1) :: path, hpath, ?_⟩
        intro q hq s hs
        rcases q with _ | ⟨_ | j, q⟩
        · cases hs
        · exact hr q s hs
        · refine hfirst (j :: q) ?_ s hs
          obtain hj | ⟨hj, hq⟩ := List.cons_lt_cons_iff.mp hq
          · exact List.cons_lt_cons_iff.mpr (.inl (Nat.lt_of_succ_lt_succ hj))
          · exact List.cons_lt_cons_iff.mpr (.inr ⟨Nat.succ.inj hj, hq⟩)

end

mutual

theorem findsFirst_findBelow? (tag : String) : ∀ r : Rule,
    FindsFirst (atAmong? r.members) tag (findBelow? tag r)
  | .condition _ => by
    rintro (_ | ⟨i, path⟩) s hs
    · exact nomatch hs
    · exact nomatch hs
  | .group _ members _ => findsFirst_findAmong? tag members

/-- **The search finds what stands at the first path to a rule with the tag.** -/
theorem findsFirst_findAmong? (tag : String) : ∀ rs : List Rule,
    FindsFirst (atAmong? rs) tag (findAmong? tag rs)
  | [] => by
    rintro (_ | ⟨i, path⟩) s hs
    · exact nomatch hs
    · exact nomatch hs
  | r :: rs => by
    rw [findAmong?_cons]
    exact findsFirst_cons (findsFirst_at? (findsFirst_findBelow? tag r))
      (findsFirst_findAmong? tag rs)

end

end Rule

/-! ## roots -/

open Rule

/-- **The order of the search.**  The first rule of the list in pre-order that carries the tag is
found, and nothing if no rule below the root carries it; a rule without a tag carries none.  Said by
paths, no rule in front of the one that is found carries the tag.  In particular none of the groups
around it does, so a group is found before what it holds; and neither does anything at or below an
earlier member of one of these groups, however deep it stands. -/
theorem Group.find?_first (g : Group) (tag : String) :
    g.find? tag = g.descendants.find? (carries tag) ∧
    (∀ r, r ∈ g.descendants ↔ ∃ path, g.at? path = some r) ∧
    (g.find? tag = none ↔ ∀ r ∈ g.descendants, r.tag ≠ some tag) ∧
    (∀ r, g.find? tag = some r ↔ ∃ path, IsFirst g.at? tag path r) ∧
    ∀ path r, IsFirst g.at? tag path r →
      (∀ around i rest s, path = around ++ i :: rest → g.at? around = some s →
        s.tag ≠ some tag) ∧
      ∀ around i j rest rest' s, path = around ++ j :: rest → i < j →
        g.at? (around ++ i :: rest') = some s → s.tag ≠ some tag := by
  have hfirst := findsFirst_findAmong? tag g.members
  refine ⟨findAmong?_eq tag g.members, fun r => mem_preorder_iff g.members,
    findAmong?_eq_none_iff, fun r => eq_some_iff_of_findsFirst hfirst, ?_⟩
  rintro path r ⟨-, hfirst⟩
  constructor
  · rintro around i rest s rfl hs
    have hlt : around ++ [] < around ++ i :: rest := List.append_left_lt (List.nil_lt_cons i rest)
    rw [List.append_nil] at hlt
    exact hfirst around hlt s hs
  · rintro around i j rest rest' s rfl hij hs
    have hlt : i :: rest' < j :: rest := List.cons_lt_cons_iff.mpr (.inl hij)
    exact hfirst _ (List.append_left_lt hlt) s hs

/-- a group before the condition in it, and both before the condition behind them -/
example :
    let rank : Rule := .condition ⟨"Rank", "", .null, some ""⟩
    let inner : Rule := .group .or [.condition ⟨"Name", "", .null, some ""⟩] (some "")
    Group.find? ⟨.and, [.group .and [inner] none, rank], none⟩ "" = some inner := rfl

end SavedFilter
