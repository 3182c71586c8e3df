import SavedFilter.Rule.Shape

/-!
# Saved filters

A document is the JSON text of a group.  It is loaded in steps, and the first that fails gives the
fault: the size of the text, its JSON, the values of all conditions, its shape, and its depth.

The values are looked at before the shape so that a bad value is reported as such (`checkValues`),
whatever else is wrong with the document.
-/

namespace SavedFilter.Document

def maxSize : Nat := 64 * 1024

def maxDepth : Nat := 32

inductive LoadFault where
  | tooLarge (size : Nat)
  | json (f : Json.Fault)
  | value (f : Scalar.EnvelopeFault)
  | shape (f : ShapeFault)
  | tooDeep (depth : Nat)
  deriving Repr

/-- The text of a fault.  Of a document that is not JSON or no filter it says no more than that. -/
def LoadFault.message : LoadFault → String
  | .tooLarge size =>
    "Filter document is " ++ Text.count size ++ " bytes, maximum is " ++ Text.count maxSize
  | .json _ | .shape _ => "Invalid filter document"
  | .value f => "Invalid filter value: " ++ f.message
  | .tooDeep depth =>
    "Filter groups nested " ++ Text.count depth ++ " deep, maximum is " ++ Text.count maxDepth

/-! ## saving -/

def save (g : Group) : String := g.toJson.compactText

def savePretty (g : Group) : String := g.toJson.prettyText

/-! ## loading -/

/-- the value of a condition, if it has one, is an envelope -/
def checkValue (v : Json) : Except Scalar.EnvelopeFault Unit :=
  match v.get? "value" with
  | none => .ok ()
  | some e => (Scalar.ofEnvelope e).map fun _ => ()

mutual

def checkValues : Json → Except Scalar.EnvelopeFault Unit
  | .obj members => checkMembers members
  | _ => .ok ()

/-- the values below the first `filters` that is found -/
def checkMembers : List (String × Json) → Except Scalar.EnvelopeFault Unit
  | [] => .ok ()
  | (key, .arr items) :: ms => if key = "filters" then checkItems items else checkMembers ms
  | (key, _) :: ms => if key = "filters" then .ok () else checkMembers ms

def checkItems : List Json → Except Scalar.EnvelopeFault Unit
  | [] => .ok ()
  | v :: vs => do
    checkValue v
    checkValues v
    checkItems vs

end

/-- the group that a JSON value stands for, with its values looked at first -/
def ofJson (v : Json) : Except LoadFault Group := do
  (checkValues v).mapError .value
  let g ← (Group.ofJson v).mapError .shape
  if maxDepth < g.depth then .error (.tooDeep g.depth) else .ok g

def load (s : String) : Except LoadFault Group :=
  if maxSize < s.utf8ByteSize then .error (.tooLarge s.utf8ByteSize)
  else (Json.parseText s).mapError .json >>= ofJson

def restoreWarning : String := "Could not restore saved filter, starting empty"

/-- The group that a document holds, or the empty one when it cannot be loaded; then a warning is
due. -/
def loadOrDefault (s : String) : Group × Option String :=
  match load s with
  | .ok g => (g, none)
  | .error _ => (.empty .and, some restoreWarning)

end SavedFilter.Document
