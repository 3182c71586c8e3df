import SavedFilter.Scalar.Basic
import SavedFilter.Text.Blank

/-!
# Filter trees

A rule is a condition on one field, or a group that joins its members with one word.  What is saved
and compiled is a group, the root of such a tree.  A rule may carry a tag, by which it is found and
removed again (`Rule.Edit`); tags need not be unique, and an empty tag is a tag.
-/

namespace SavedFilter

/-- the word between the members of a group -/
inductive Join where
  | and
  | or
  deriving DecidableEq, Repr

def Join.keyword : Join → String
  | .and => "and"
  | .or => "or"

/-- `field <operator> value` -/
structure Condition where
  field : String
  operator : String
  value : Scalar
  tag : Option String
  deriving DecidableEq, Repr

inductive Rule where
  | condition (c : Condition)
  | group (join : Join) (members : List Rule) (tag : Option String)
  deriving Repr

structure Group where
  join : Join
  members : List Rule
  tag : Option String
  deriving Repr

def defaultOperator : String := "equal"

/-- the operator without the blanks around it; a blank one is the default -/
def Condition.operatorCode (c : Condition) : String :=
  let code := Text.trim c.operator.toList
  if code.isEmpty then defaultOperator else String.ofList code

def Condition.blank : Condition := ⟨"", "", .null, none⟩

namespace Group

def empty (join : Join) : Group := ⟨join, [], none⟩

def toRule (g : Group) : Rule := .group g.join g.members g.tag

end Group

namespace Rule

def tag : Rule → Option String
  | .condition c => c.tag
  | .group _ _ tag => tag

end Rule

/-! ## usable conditions -/

/-- a condition is usable when it names a field; its value does not matter -/
def Condition.isUsable (c : Condition) : Bool := !Text.allBlank c.field

mutual

/-- some condition at any depth is usable -/
def Rule.isValid : Rule → Bool
  | .condition c => c.isUsable
  | .group _ members _ => Rule.anyValid members

def Rule.anyValid : List Rule → Bool
  | [] => false
  | r :: rs => r.isValid || Rule.anyValid rs

end

def Group.isValid (g : Group) : Bool := Rule.anyValid g.members

/-! ## depth -/

mutual

/-- the number of groups on the longest path down from a rule -/
def Rule.depth : Rule → Nat
  | .condition _ => 0
  | .group _ members _ => 1 + Rule.depthOfAll members

def Rule.depthOfAll : List Rule → Nat
  | [] => 0
  | r :: rs => max r.depth (Rule.depthOfAll rs)

end

def Group.depth (g : Group) : Nat := 1 + Rule.depthOfAll g.members

/-! ## equality

Two rules are the same when they have the same shape, fields, operators, joins and tags, and values
that are the same. -/

def Condition.same (a b : Condition) : Bool :=
  a.field == b.field && a.operator == b.operator && a.value.same b.value && a.tag == b.tag

mutual

def Rule.same : Rule → Rule → Bool
  | .condition a, .condition b => a.same b
  | .group j ms t, .group k ns u => j == k && Rule.sameAll ms ns && t == u
  | .condition _, .group _ _ _ | .group _ _ _, .condition _ => false

def Rule.sameAll : List Rule → List Rule → Bool
  | [], [] => true
  | r :: rs, s :: ss => r.same s && Rule.sameAll rs ss
  | [], _ :: _ | _ :: _, [] => false

end

def Group.same (a b : Group) : Bool :=
  a.join == b.join && Rule.sameAll a.members b.members && a.tag == b.tag

namespace Rule

theorem anyValid_cons (r : Rule) (rs : List Rule) :
    anyValid (r :: rs) = (r.isValid || anyValid rs) := rfl

theorem depthOfAll_nil : depthOfAll [] = 0 := rfl
theorem depthOfAll_cons (r : Rule) (rs : List Rule) :
    depthOfAll (r :: rs) = max r.depth (depthOfAll rs) := rfl

theorem sameAll_cons (r s : Rule) (rs ss : List Rule) :
    sameAll (r :: rs) (s :: ss) = (r.same s && sameAll rs ss) := rfl

end Rule

theorem Group.isValid_toRule (g : Group) : g.toRule.isValid = g.isValid := rfl

end SavedFilter
