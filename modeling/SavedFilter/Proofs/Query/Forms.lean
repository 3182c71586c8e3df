import SavedFilter.Proofs.Query.Render

/-!
# The built-in forms of emitters

An emitter of one of the three built-in families is told by its *form*.  Around the field it writes
`front field stem tail`, which is never nothing, and it binds the value of the condition or no value
at all, whatever the buffer holds.

A table is `OfForms` if a condition can reach no other emitters in it.
-/

namespace SavedFilter

inductive Form where
  | comparison (symbol : String)
  | nullTest (symbol : String)
  | call (method : String) (negated : Bool)
  deriving DecidableEq

namespace Form

def emitter : Form → Emitter
  | .comparison symbol => .comparison symbol
  | .nullTest symbol => .nullTest symbol
  | .call method negated => .call method negated

/-- the text in front of the field -/
def front : Form → List Char
  | .comparison _ | .nullTest _ => []
  | .call _ negated => if negated then ['!'] else []

/-- the text behind the field, up to the number of the value -/
def stem : Form → List Char
  | .comparison symbol => ' ' :: symbol.toList ++ [' ', '@']
  | .nullTest symbol => ' ' :: symbol.toList ++ [' ', 'N', 'U', 'L', 'L']
  | .call method _ => '.' :: method.toList ++ ['(', '@']

/-- the number of the value and what stands behind it -/
def tail (token : String) (n : Nat) : Form → List Char
  | .comparison _ => Text.decimal n
  | .nullTest _ => []
  | .call _ _ => Text.decimal n ++ ',' :: ' ' :: (token.toList ++ [')'])

def binds : Form → Bool
  | .comparison _ | .call _ _ => true
  | .nullTest _ => false

theorem toList_emit (f : Form) (token : String) (n : Nat) (c : Condition) :
    (f.emitter.emit token n c).text.toList
      = f.front ++ (c.field.toList ++ (f.stem ++ f.tail token n)) := by
  have hn : (Buffer.numbered token n).next = n := List.length_replicate
  have ht : (Buffer.numbered token n).token = token := rfl
  cases f with
  | comparison symbol =>
    simp [emitter, Emitter.emit, Emitter.comparison, Emitter.placeholder, Text.count, front, stem,
      tail, hn]
  | nullTest symbol => simp [emitter, Emitter.emit, Emitter.nullTest, front, stem, tail]
  | call method negated =>
    cases negated <;>
      simp [emitter, Emitter.emit, Emitter.call, Emitter.placeholder, Text.count, front, stem,
        tail, hn, ht]

theorem values_emit (f : Form) (token : String) (n : Nat) (c : Condition) :
    (f.emitter.emit token n c).values = if f.binds then [c.value] else [] := by
  cases f <;> rfl

theorem text_emit_ne (f : Form) (token : String) (n : Nat) (c : Condition) :
    (f.emitter.emit token n c).text ≠ "" := by
  intro h
  have ht := f.toList_emit token n c
  rw [h] at ht
  have hstem := (List.append_eq_nil_iff.mp (List.append_eq_nil_iff.mp ht.symm).2).2
  cases f <;> exact nomatch hstem

theorem isPositional_emitter (f : Form) : f.emitter.IsPositional := by
  cases f with
  | comparison symbol => exact Emitter.isPositional_comparison symbol
  | nullTest symbol => exact Emitter.isPositional_nullTest symbol
  | call method negated => exact Emitter.isPositional_call method negated

/-- of a condition the text shows no more than the field -/
theorem text_emit_congr (f : Form) (token : String) (n : Nat) {c d : Condition}
    (h : c.field = d.field) :
    (f.emitter.emit token n c).text = (f.emitter.emit token n d).text := by
  apply String.toList_inj.mp
  rw [toList_emit, toList_emit, h]

end Form

namespace Operators
variable {ops : Operators}

theorem find_congr {code other : String} (h : normalForm code = normalForm other) :
    ops.find code = ops.find other := by
  rw [find, find, h]

/-- every emitter that a condition can reach in the table has a built-in form -/
def OfForms (ops : Operators) : Prop := ∀ code, ∃ f : Form, ops.find code = f.emitter

theorem OfForms.isPositional (h : ops.OfForms) : ops.IsPositional := by
  intro code
  obtain ⟨f, hf⟩ := h code
  rw [hf]
  exact f.isPositional_emitter

theorem ofForms_empty : empty.OfForms := fun code => ⟨.comparison "==", find_empty code⟩

theorem OfForms.insert (h : ops.OfForms) (code : String) (f : Form) :
    (ops.insert code f.emitter).OfForms := by
  intro other
  rw [find_insert]
  split_ifs
  · exact ⟨f, rfl⟩
  · exact h other

theorem OfForms.insertAll (h : ops.OfForms) (entries : List (String × Form)) :
    (ops.insertAll (entries.map fun e => (e.1, e.2.emitter))).OfForms := by
  induction entries generalizing ops with
  | nil => exact h
  | cons e entries ih =>
    rw [List.map_cons, insertAll_cons]
    exact ih (h.insert e.1 e.2)

def builtinForms : List (String × Form) :=
  [("contains", .call "Contains" false), ("not-contains", .call "Contains" true),
   ("starts-with", .call "StartsWith" false), ("not-starts-with", .call "StartsWith" true),
   ("ends-with", .call "EndsWith" false), ("not-ends-with", .call "EndsWith" true),
   ("equal", .comparison "=="), ("not-equal", .comparison "!="),
   ("greater-than", .comparison ">"), ("greater-than-or-equal", .comparison ">="),
   ("less-than", .comparison "<"), ("less-than-or-equal", .comparison "<="),
   ("is-null", .nullTest "=="), ("is-not-null", .nullTest "!=")]

theorem builtinEntries_eq :
    builtinEntries = builtinForms.map fun e => (e.1, e.2.emitter) := rfl

theorem ofForms_builtin : builtin.OfForms := by
  rw [builtin, builtinEntries_eq]
  exact ofForms_empty.insertAll builtinForms

end Operators
end SavedFilter
