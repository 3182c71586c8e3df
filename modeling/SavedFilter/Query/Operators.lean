import Std.Data.TreeMap.Lemmas
import SavedFilter.Query.Basic
import SavedFilter.Text.Quoted

/-!
# Operators

The table of emitters by operator code.  Codes are compared without the blanks around them and
without regard to the case of ASCII letters; the table holds them in this normal form, in order.  A
later entry replaces an earlier one.  A code without entry compares with `==`, whatever the entry of
the default operator is.
-/

namespace SavedFilter

structure Operators where
  table : Std.TreeMap String Emitter

namespace Operators

/-- the code without blanks around it and in lower case -/
def normalForm (code : String) : String :=
  String.ofList ((Text.trim code.toList).map Char.toLower)

def empty : Operators := ⟨∅⟩

def insert (ops : Operators) (code : String) (e : Emitter) : Operators :=
  ⟨ops.table.insert (normalForm code) e⟩

/-- the emitter for codes without entry -/
def fallback : Emitter := .comparison "=="

def find (ops : Operators) (code : String) : Emitter :=
  ops.table[normalForm code]?.getD fallback

def contains (ops : Operators) (code : String) : Bool := ops.table.contains (normalForm code)

def codes (ops : Operators) : List String := ops.table.keys

def builtinEntries : List (String × Emitter) :=
  [("contains", .call "Contains" false), ("not-contains", .call "Contains" true),
   ("starts-with", .call "StartsWith" false), ("not-starts-with", .call "StartsWith" true),
   ("ends-with", .call "EndsWith" false), ("not-ends-with", .call "EndsWith" true),
   ("equal", .comparison "=="), ("not-equal", .comparison "!="),
   ("greater-than", .comparison ">"), ("greater-than-or-equal", .comparison ">="),
   ("less-than", .comparison "<"), ("less-than-or-equal", .comparison "<="),
   ("is-null", .nullTest "=="), ("is-not-null", .nullTest "!=")]

/-- the table with more entries, one after the other -/
def insertAll (ops : Operators) (entries : List (String × Emitter)) : Operators :=
  entries.foldl (fun ops e => ops.insert e.1 e.2) ops

def builtin : Operators := empty.insertAll builtinEntries

def listing (ops : Operators) : String := "\n".intercalate ops.codes

def describe (ops : Operators) : String :=
  "OperatorRegistry \x7b codes: [" ++ ", ".intercalate (ops.codes.map Text.quote) ++ "] \x7d"

theorem find_empty (code : String) : empty.find code = fallback := by
  simp [find, empty]

theorem find_insert (ops : Operators) (code other : String) (e : Emitter) :
    (ops.insert code e).find other =
      if normalForm code = normalForm other then e else ops.find other := by
  simp only [find, insert, Std.TreeMap.getElem?_insert, Std.LawfulEqCmp.compare_eq_iff_eq]
  split <;> rfl

end Operators
end SavedFilter
