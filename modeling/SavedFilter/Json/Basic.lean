import SavedFilter.Binary64.Basic

/-!
# JSON values

A number without fraction and exponent is an integer when 64 bits hold it, every other number is a
double.  The members of an object keep the order of the text, and a key stands there once:
`collapse` lets a repeated key keep its first place and its last value.
-/

namespace SavedFilter

inductive Json where
  | null
  | bool (b : Bool)
  | int (n : Int)
  | double (x : Binary64)
  | str (s : String)
  | arr (items : List Json)
  | obj (members : List (String × Json))
  deriving Repr

namespace Json

def kind : Json → String
  | .null => "null"
  | .bool _ => "boolean"
  | .int _ | .double _ => "number"
  | .str _ => "string"
  | .arr _ => "array"
  | .obj _ => "object"

/-! ## members -/

/-- the members with `key` set to `v`, in its place if it is there and else at the end -/
def put {α : Type} (members : List (String × α)) (key : String) (v : α) : List (String × α) :=
  match members with
  | [] => [(key, v)]
  | m :: ms => if m.1 = key then (key, v) :: ms else m :: put ms key v

/-- the members with every key once: at its first place, with its last value -/
def collapse {α : Type} (members : List (String × α)) : List (String × α) :=
  members.foldl (fun ms m => put ms m.1 m.2) []

/-- the value of a key of an object; other values have no keys -/
def get? (v : Json) (key : String) : Option Json :=
  match v with
  | .obj members => members.lookup key
  | _ => none

private theorem lookup_cons_if {α : Type} (m : String × α) (ms : List (String × α)) (k : String) :
    List.lookup k (m :: ms) = if k = m.1 then some m.2 else ms.lookup k := by
  obtain ⟨mk, mv⟩ := m
  by_cases h : k = mk
  · simp [h]
  · have hb : (k == mk) = false := by simpa using h
    simp [List.lookup_cons, hb, h]

theorem lookup_put {α : Type} (members : List (String × α)) (key k : String) (v : α) :
    (put members key v).lookup k = if k = key then some v else members.lookup k := by
  induction members with
  | nil => simp [put, lookup_cons_if]
  | cons m ms ih =>
    by_cases hm : m.1 = key
    · by_cases h : k = key <;> simp [put, lookup_cons_if, hm, h]
    · by_cases h : k = key
      · subst h
        simp [put, lookup_cons_if, hm, ih, Ne.symm hm]
      · simp [put, lookup_cons_if, hm, ih, h]

end Json
end SavedFilter
