import SavedFilter.Rule.Basic
import SavedFilter.Scalar.Envelope

/-!
# Queries

A query is a text with placeholders `@0`, `@1`, … and the values that these bind, in order.  While a
filter is compiled its query grows in a buffer.  What a condition adds to it is decided by an
*emitter*, a function of the condition and of all that the buffer holds; its answer is a query of
its own that goes to the end of the buffer.

Three families of emitters are built in: `comparison`, `nullTest` and `call`.
-/

namespace SavedFilter

/-- a text and the values that its placeholders bind -/
structure Query where
  text : String
  values : List Scalar
  deriving DecidableEq, Repr

namespace Query

def none : Query := ⟨"", []⟩

def append (p q : Query) : Query := ⟨p.text ++ q.text, p.values ++ q.values⟩

instance : Append Query := ⟨append⟩

def isEmpty (q : Query) : Bool := q.text.isEmpty

def valuesJson (q : Query) : Json := .arr (q.values.map Scalar.envelope)

def toJson (q : Query) : Json := .obj [("text", .str q.text), ("parameters", q.valuesJson)]

theorem append_def (p q : Query) : p ++ q = ⟨p.text ++ q.text, p.values ++ q.values⟩ := rfl
theorem append_none (q : Query) : q ++ none = q := by simp [append_def, none]
theorem none_append (q : Query) : none ++ q = q := by simp [append_def, none]
theorem append_assoc (p q r : Query) : p ++ q ++ r = p ++ (q ++ r) := by
  simp [append_def, String.append_assoc]

end Query

/-- the query so far, and the token that string methods get as their second argument -/
structure Buffer where
  query : Query
  token : String
  deriving DecidableEq, Repr

namespace Buffer

def empty (token : String) : Buffer := ⟨.none, token⟩

def add (b : Buffer) (q : Query) : Buffer := ⟨b.query ++ q, b.token⟩

def write (b : Buffer) (s : String) : Buffer := b.add ⟨s, []⟩

def next (b : Buffer) : Nat := b.query.values.length

def bind (b : Buffer) (v : Scalar) : Buffer := b.add ⟨"", [v]⟩

theorem add_none (b : Buffer) : b.add .none = b := by
  cases b with
  | mk q t => simp [add, Query.append_none]
theorem add_add (b : Buffer) (p q : Query) : (b.add p).add q = b.add (p ++ q) := by
  simp [add, Query.append_assoc]

end Buffer

/-! ## emitters -/

/-- what a condition adds to the buffer -/
abbrev Emitter := Condition → Buffer → Query

namespace Emitter

def placeholder (n : Nat) : String := "@" ++ Text.count n

/-- `field <symbol> @N` -/
def comparison (symbol : String) : Emitter := fun c b =>
  ⟨c.field ++ " " ++ symbol ++ " " ++ placeholder b.next, [c.value]⟩

/-- `field <symbol> NULL`, which binds no value -/
def nullTest (symbol : String) : Emitter := fun c _ =>
  ⟨c.field ++ " " ++ symbol ++ " NULL", []⟩

/-- `[!]field.Method(@N, <token>)` -/
def call (method : String) (negated : Bool) : Emitter := fun c b =>
  ⟨(if negated then "!" else "") ++ c.field ++ "." ++ method ++ "(" ++ placeholder b.next ++ ", " ++
    b.token ++ ")", [c.value]⟩

end Emitter
end SavedFilter
