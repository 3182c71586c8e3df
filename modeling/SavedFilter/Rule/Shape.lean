import SavedFilter.Rule.Basic
import SavedFilter.Scalar.Envelope
import SavedFilter.Text.Position
import SavedFilter.Text.Quoted

/-!
# The JSON form of rules

A rule is an object whose `type` tells a condition (`filter`) from a group, with the members

* `field`, `operator`, `value`, `id`   of a condition,
* `logic`, `filters`, `id`             of a group;

`id` is the tag.  `toJson` leaves out a null value and an absent tag; when read, every member may be
missing and unknown ones are ignored.  An array stands for the object with the same values in this
order, the type in front, and may be shorter.  The root is a group without a type.

Values are read from left to right and the first fault counts, except that the type comes first.
-/

namespace SavedFilter

/-- what was expected where something else was found -/
inductive Expected where
  | text
  | items
  | join
  | nothing
  | kind
  | rule
  | root
  | condition
  deriving DecidableEq, Repr

def Expected.message : Expected → String
  | .text => "a string"
  | .items => "a sequence"
  | .join => "string or map"
  | .nothing => "unit"
  | .kind => "variant identifier"
  | .rule => "internally tagged enum QueryRule"
  | .root => "struct QueryGroup"
  | .condition => "struct QueryFilter"

inductive ShapeFault where
  | missingKind
  | unknownKind (name : String)
  | kindIndex (n : Int)
  | unknownJoin (name : String)
  | joinKeys
  | unexpected (found : Json) (expected : Expected)
  | tooManyItems (found members : Nat)
  | tooManyRootItems (found : Nat)
  | value (f : Scalar.EnvelopeFault)
  deriving Repr

namespace ShapeFault

def marked (s : String) : String := "\x60" ++ s ++ "\x60"

/-- what a message says was found -/
def found : Json → String
  | .null => "null"
  | .bool b => "boolean " ++ marked (if b then "true" else "false")
  | .int n => "integer " ++ marked (String.ofList (Text.integer n))
  | .double x => "floating point " ++ marked (String.ofList (Json.doubleText x))
  | .str s => "string " ++ Text.quote s
  | .arr _ => "sequence"
  | .obj _ => "map"

def message : ShapeFault → String
  | .missingKind => "missing field " ++ marked "type"
  | .unknownKind name =>
    "unknown variant " ++ marked name ++ ", expected " ++ marked "filter" ++ " or " ++
      marked "group"
  | .kindIndex n =>
    "invalid value: integer " ++ marked (String.ofList (Text.integer n)) ++
      ", expected variant index 0 <= i < 2"
  | .unknownJoin name =>
    "unknown variant " ++ marked name ++ ", expected " ++ marked "and" ++ " or " ++ marked "or"
  | .joinKeys => "invalid value: map, expected map with a single key"
  | .unexpected v e => "invalid type: " ++ found v ++ ", expected " ++ e.message
  | .tooManyItems n m =>
    "invalid length " ++ Text.count n ++ ", expected " ++ Text.count m ++ " elements in sequence"
  | .tooManyRootItems n =>
    "invalid length " ++ Text.count n ++ ", expected fewer elements in array"
  | .value f => String.ofList (Text.tidyPosition f.message.toList)

end ShapeFault

namespace Rule

/-! ## writing -/

def tagMember : Option String → List (String × Json)
  | none => []
  | some t => [("id", .str t)]

end Rule

def Condition.members (c : Condition) : List (String × Json) :=
  ("field", .str c.field) :: ("operator", .str c.operator) ::
    ((if c.value.isNull then [] else [("value", c.value.envelope)]) ++ Rule.tagMember c.tag)

mutual

def Rule.toJson : Rule → Json
  | .condition c => .obj (("type", .str "filter") :: c.members)
  | .group join members tag =>
    .obj (("type", .str "group") :: ("logic", .str join.keyword) ::
      ("filters", .arr (Rule.toJsonAll members)) :: Rule.tagMember tag)

def Rule.toJsonAll : List Rule → List Json
  | [] => []
  | r :: rs => r.toJson :: Rule.toJsonAll rs

end

def Group.toJson (g : Group) : Json :=
  .obj (("logic", .str g.join.keyword) :: ("filters", .arr (Rule.toJsonAll g.members)) ::
    Rule.tagMember g.tag)

/-! ## reading single members -/

namespace Shape

def text : Json → Except ShapeFault String
  | .str s => .ok s
  | v => .error (.unexpected v .text)

/-- a tag, which null leaves away -/
def tag : Json → Except ShapeFault (Option String)
  | .null => .ok none
  | v => (text v).map some

def value (v : Json) : Except ShapeFault Scalar := (Scalar.ofEnvelope v).mapError .value

def joinOfName (name : String) : Except ShapeFault Join :=
  if name = "and" then .ok .and
  else if name = "or" then .ok .or
  else .error (.unknownJoin name)

/-- What stands beside the name of a join has to be null; within a rule an empty object will do. -/
def joinContent (inner : Bool) : Json → Except ShapeFault Unit
  | .null => .ok ()
  | .obj [] => if inner then .ok () else .error (.unexpected (.obj []) .nothing)
  | v => .error (.unexpected v .nothing)

/-- the name of a join, or an object with the name as its only key -/
def join (inner : Bool) : Json → Except ShapeFault Join
  | .str name => joinOfName name
  | .obj [(name, v)] => do
    let j ← joinOfName name
    joinContent inner v
    .ok j
  | .obj _ => .error .joinKeys
  | v => .error (.unexpected v .join)

inductive Kind where
  | condition
  | group
  deriving DecidableEq, Repr

def kindOfName (name : String) : Except ShapeFault Kind :=
  if name = "filter" then .ok .condition
  else if name = "group" then .ok .group
  else .error (.unknownKind name)

/-- a kind by its place in the list of kinds -/
def kindOfIndex (n : Int) : Except ShapeFault Kind :=
  if n = 0 then .ok .condition
  else if n = 1 then .ok .group
  else .error (.kindIndex n)

/-- the kind of a rule by its name; within a rule its place will do -/
def kind (inner : Bool) : Json → Except ShapeFault Kind
  | .str name => kindOfName name
  | .int n =>
    if inner && 0 ≤ n then kindOfIndex n else .error (.unexpected (.int n) .kind)
  | v => .error (.unexpected v .kind)

/-! ## conditions -/

def conditionKeys : List String := ["field", "operator", "value", "id"]

def setConditionMember (c : Condition) (key : String) (v : Json) : Except ShapeFault Condition :=
  if key = "field" then (text v).map fun s => { c with field := s }
  else if key = "operator" then (text v).map fun s => { c with operator := s }
  else if key = "value" then (value v).map fun x => { c with value := x }
  else if key = "id" then (tag v).map fun t => { c with tag := t }
  else .ok c

def conditionOfMembers (c : Condition) : List (String × Json) → Except ShapeFault Condition
  | [] => .ok c
  | (key, v) :: ms => do
    let c ← setConditionMember c key v
    conditionOfMembers c ms

def conditionOfItems (items : List Json) : Except ShapeFault Condition := do
  let c ← conditionOfMembers .blank (conditionKeys.zip items)
  if conditionKeys.length < items.length then
    .error (.tooManyItems items.length conditionKeys.length)
  else .ok c

/-! ## groups and rules -/

def groupKeys : List String := ["logic", "filters", "id"]

/-- the group with a member read that holds no rules -/
def setPlainMember (inner : Bool) (g : Group) (key : String) (v : Json) :
    Except ShapeFault Group :=
  if key = "logic" then (join inner v).map fun j => { g with join := j }
  else if key = "filters" then .error (.unexpected v .items)
  else if key = "id" then (tag v).map fun t => { g with tag := t }
  else .ok g

mutual

/-- A rule.  `inner` tells that it stands within another rule. -/
def rule (inner : Bool) : Json → Except ShapeFault Rule
  | .obj members =>
    match members.lookup "type" with
    | none => .error .missingKind
    | some t => do
      match ← kind inner t with
      | .condition => (conditionOfMembers .blank members).map .condition
      | .group => (groupOfMembers true (.empty .and) members).map Group.toRule
  | .arr [] => .error .missingKind
  | .arr (t :: items) => do
    match ← kind inner t with
    | .condition => (conditionOfItems items).map .condition
    | .group => do
      let g ← groupOfItems true (.empty .and) groupKeys items
      if groupKeys.length < items.length then
        .error (.tooManyItems items.length groupKeys.length)
      else .ok g.toRule
  | v => .error (.unexpected v .rule)

def rules (inner : Bool) : List Json → Except ShapeFault (List Rule)
  | [] => .ok []
  | v :: vs => do
    let r ← rule inner v
    let rs ← rules inner vs
    .ok (r :: rs)

def setGroupMember (inner : Bool) (g : Group) (key : String) : Json → Except ShapeFault Group
  | .arr items =>
    if key = "filters" then (rules inner items).map fun rs => { g with members := rs }
    else setPlainMember inner g key (.arr items)
  | v => setPlainMember inner g key v

def groupOfMembers (inner : Bool) (g : Group) : List (String × Json) → Except ShapeFault Group
  | [] => .ok g
  | (key, v) :: ms => do
    let g ← setGroupMember inner g key v
    groupOfMembers inner g ms

/-- the items beside the keys that they belong to -/
def groupOfItems (inner : Bool) (g : Group) : List String → List Json → Except ShapeFault Group
  | key :: keys, v :: vs => do
    let g ← setGroupMember inner g key v
    groupOfItems inner g keys vs
  | _, _ => .ok g

end

end Shape

open Shape

def Rule.ofJson (v : Json) : Except ShapeFault Rule := rule false v

def Group.ofJson : Json → Except ShapeFault Group
  | .obj members => groupOfMembers false (.empty .and) members
  | .arr items => do
    let g ← groupOfItems false (.empty .and) groupKeys items
    if groupKeys.length < items.length then .error (.tooManyRootItems items.length) else .ok g
  | v => .error (.unexpected v .root)

def Condition.ofJson : Json → Except ShapeFault Condition
  | .obj members => conditionOfMembers .blank members
  | .arr items => do
    let c ← conditionOfMembers .blank (conditionKeys.zip items)
    if conditionKeys.length < items.length then .error (.tooManyRootItems items.length) else .ok c
  | v => .error (.unexpected v .condition)

theorem Rule.toJsonAll_cons (r : Rule) (rs : List Rule) :
    Rule.toJsonAll (r :: rs) = r.toJson :: Rule.toJsonAll rs := rfl

end SavedFilter
