import SavedFilter.Json.Skip

/-!
# The settings file

The file is one JSON object with two sections that may be absent or null: `compiler`, which may set
a `comparison` token, and `output`, which may set `pretty`.  A section may also be an array with the
one setting.  A section or a setting that stands twice makes the file invalid, and so does any other
fault.

Other members are allowed.  Those of a section are passed over; those of the file are collected by
name, each once in the order of first appearance, because they may be misspelt.
-/

namespace SavedFilter

structure FileSettings where
  token : Option String
  pretty : Option Bool
  unknown : List String
  deriving DecidableEq, Repr

namespace FileSettings
open Json Json.Reader

def none : FileSettings := ⟨.none, .none, []⟩

def nullable {α : Type} (read : List Char → Except Fault (α × List Char)) (cs : List Char) :
    Except Fault (Option α × List Char) :=
  match skipSpace cs with
  | [] => .error .endOfText
  | c :: cs =>
    if c = 'n' then (word "ull".toList cs).map (.none, ·)
    else (read (c :: cs)).map fun r => (some r.1, r.2)

def textSetting : List Char → Except Fault (String × List Char)
  | '"' :: cs => string cs
  | cs => .error (refuse cs)

def boolSetting : List Char → Except Fault (Bool × List Char)
  | 't' :: cs => (word "rue".toList cs).map (true, ·)
  | 'f' :: cs => (word "alse".toList cs).map (false, ·)
  | cs => .error (refuse cs)

/-- the only value of a list, `none` if there is none -/
def atMostOne {α : Type} : List (Option α) → Except Fault (Option α)
  | [] => .ok .none
  | [v] => .ok v
  | _ => .error .malformed

/-- one setting of a section; members with other names are passed over -/
def setting {α : Type} (name : String) (read : List Char → Except Fault (α × List Char))
    (key : String) (cs : List Char) : Except Fault (Option (Option α) × List Char) :=
  if key = name then (nullable read cs).map fun r => (some r.1, r.2)
  else (Skip.value cs).map (.none, ·)

def sectionOf {α : Type} (fuel : Nat) (name : String)
    (read : List Char → Except Fault (α × List Char)) :
    List Char → Except Fault (Option α × List Char)
  | '{' :: cs => do
    let (found, cs) ← members (setting name read) fuel cs
    let v ← atMostOne (found.filterMap (·.2))
    .ok (v, cs)
  | '[' :: cs => do
    let (found, cs) ← items (nullable read) fuel cs
    match found with
    | [v] => .ok (v, cs)
    | _ => .error .malformed
  | cs => .error (refuse cs)

/-- what a member of the file is -/
inductive Member where
  | compiler (token : Option (Option String))
  | output (pretty : Option (Option Bool))
  | unknown
  deriving DecidableEq, Repr

def member (fuel : Nat) (key : String) (cs : List Char) : Except Fault (Member × List Char) :=
  if key = "compiler" then
    (nullable (sectionOf fuel "comparison" textSetting) cs).map fun r => (.compiler r.1, r.2)
  else if key = "output" then
    (nullable (sectionOf fuel "pretty" boolSetting) cs).map fun r => (.output r.1, r.2)
  else (value fuel (maxNesting - 1) cs).map fun r => (.unknown, r.2)

def Member.token? : Member → Option (Option String)
  | .compiler t => some t.join
  | _ => .none

def Member.pretty? : Member → Option (Option Bool)
  | .output p => some p.join
  | _ => .none

/-- the names of the unknown members, each once -/
def unknownNames (ms : List (String × Member)) : List String :=
  (collapse (ms.filter (·.2 == .unknown))).map (·.1)

def ofMembers (ms : List (String × Member)) : Except Fault FileSettings := do
  let token ← atMostOne (ms.filterMap (·.2.token?))
  let pretty ← atMostOne (ms.filterMap (·.2.pretty?))
  .ok ⟨token, pretty, unknownNames ms⟩

def read (cs : List Char) : Except Fault FileSettings :=
  match skipSpace cs with
  | '{' :: rest => members (member (cs.length + 1)) (cs.length + 1) rest >>= atEnd >>= ofMembers
  | rest => .error (refuse rest)

end FileSettings
end SavedFilter
