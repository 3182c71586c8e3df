import SavedFilter.Rule.Basic

/-!
# Finding and removing rules by tag

Rules are searched in pre-order: a rule before what is below it, and both before its next sibling.
Removing a tag removes every rule below the root that carries it; what is below a removed rule goes
with it and is not counted.
-/

namespace SavedFilter

namespace Rule

mutual

/-- the first rule below this one that carries the tag -/
def findBelow? (tag : String) : Rule → Option Rule
  | .condition _ => none
  | .group _ members _ => findAmong? tag members

def findAmong? (tag : String) : List Rule → Option Rule
  | [] => none
  | r :: rs =>
    if r.tag = some tag then some r
    else match findBelow? tag r with
      | some found => some found
      | none => findAmong? tag rs

end

mutual

/-- the rule without the rules below it that carry the tag -/
def without (tag : String) : Rule → Rule
  | .condition c => .condition c
  | .group join members t => .group join (withoutAll tag members) t

def withoutAll (tag : String) : List Rule → List Rule
  | [] => []
  | r :: rs => if r.tag = some tag then withoutAll tag rs else without tag r :: withoutAll tag rs

end

mutual

/-- how many rules `without` takes out of a rule -/
def countBelow (tag : String) : Rule → Nat
  | .condition _ => 0
  | .group _ members _ => countAmong tag members

def countAmong (tag : String) : List Rule → Nat
  | [] => 0
  | r :: rs => (if r.tag = some tag then 1 else countBelow tag r) + countAmong tag rs

end

end Rule

namespace Group

def isEmpty (g : Group) : Bool := g.members.isEmpty

def push (g : Group) (r : Rule) : Group := ⟨g.join, g.members ++ [r], g.tag⟩

def append (g : Group) (rs : List Rule) : Group := ⟨g.join, g.members ++ rs, g.tag⟩

def withTag (g : Group) (tag : String) : Group := ⟨g.join, g.members, some tag⟩

def clear (g : Group) : Group := ⟨g.join, [], g.tag⟩

def wrap (g : Group) (join : Join) : Group := ⟨join, [g.toRule], none⟩

def find? (g : Group) (tag : String) : Option Rule := Rule.findAmong? tag g.members

/-- the group without the rules that carry the tag, and how many these were -/
def remove (g : Group) (tag : String) : Group × Nat :=
  (⟨g.join, Rule.withoutAll tag g.members, g.tag⟩, Rule.countAmong tag g.members)

theorem depth_wrap (g : Group) (join : Join) : (g.wrap join).depth = 1 + g.depth := by
  simp only [depth, wrap, Rule.depthOfAll_cons, Rule.depthOfAll_nil, Nat.max_zero]
  rfl

end Group
end SavedFilter
