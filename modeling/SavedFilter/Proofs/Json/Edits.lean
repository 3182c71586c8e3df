import SavedFilter.Proofs.Json.Lookups

/-!
# Edits that a reader of rules should not see

An edit gives the keys of one object another order, or puts one key more into an object that stands
in the place of a rule, a key that no rule has.  The places are

* `rule`    the root, and the items of `filters`;
* `rules`   the value of `filters`, and what may be one in a rule that is an array;
* `other`   everywhere else.

Two documents that differ in such edits only are related by `Relation.EqvGen (Edit .rule)`.
-/

namespace SavedFilter.Json

inductive Place where
  | rule
  | rules
  | other
  deriving DecidableEq, Repr

/-- the place of the value of a key -/
def Place.ofKey (key : String) : Place := if key = "filters" then .rules else .other

/-- the place of the items of an array -/
def Place.ofItem : Place → Place
  | .rule => .rules
  | .rules => .rule
  | .other => .other

/-- the keys of rules -/
def ruleKeys : List String := ["type", "field", "operator", "value", "id", "logic", "filters"]

/-- one edit, of a value at this place or somewhere below it; no object has a key twice -/
inductive Edit : Place → Json → Json → Prop
  | reorder {p : Place} {ms ns : List (String × Json)} :
      (ms.map Prod.fst).Nodup → ms.Perm ns → Edit p (.obj ms) (.obj ns)
  | foreign {ms : List (String × Json)} {key : String} {v : Json} :
      key ∉ ruleKeys → (((key, v) :: ms).map Prod.fst).Nodup →
      Edit .rule (.obj ms) (.obj ((key, v) :: ms))
  | member {p : Place} {ms ns : List (String × Json)} {key : String} {v w : Json} :
      ((ms ++ (key, v) :: ns).map Prod.fst).Nodup → Edit (.ofKey key) v w →
      Edit p (.obj (ms ++ (key, v) :: ns)) (.obj (ms ++ (key, w) :: ns))
  | item {p : Place} {xs ys : List Json} {v w : Json} :
      Edit p.ofItem v w → Edit p (.arr (xs ++ v :: ys)) (.arr (xs ++ w :: ys))

theorem Place.ofKey_filters : Place.ofKey "filters" = .rules := rfl
theorem Place.ofKey_ne_rule (key : String) : Place.ofKey key ≠ .rule := by
  unfold ofKey
  split <;> decide

/-- an edit is made within objects and arrays -/
theorem Edit.nested {p : Place} {v w : Json} (h : Edit p v w) :
    (∃ ms ns, v = .obj ms ∧ w = .obj ns) ∨ ∃ xs ys, v = .arr xs ∧ w = .arr ys := by
  cases h with
  | reorder _ _ => exact .inl ⟨_, _, rfl, rfl⟩
  | foreign _ _ => exact .inl ⟨_, _, rfl, rfl⟩
  | member _ _ => exact .inl ⟨_, _, rfl, rfl⟩
  | item _ => exact .inr ⟨_, _, rfl, rfl⟩

end SavedFilter.Json
