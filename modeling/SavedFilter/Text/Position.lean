import SavedFilter.Text.Digits

/-!
# Positions in messages

A message may end in the place that it is about, as in `… at line 3 column 14`.  Such an end is told
in its usual form (`tidyPosition`): numbers have no zeros in front, and line 0, which no text has,
stands for no place at all and is left out.  Only an end of exactly this form counts: one blank
between the words, decimal digits alone, numbers below `2^64`.
-/

namespace SavedFilter.Text

def lineWords : List Char := " at line ".toList
def columnWords : List Char := " column ".toList

/-- the number that decimal digits alone spell, if 64 bits hold it -/
def place? (ds : List Char) : Option Nat :=
  if !ds.isEmpty && ds.all Char.isDigit && decide (ofDecimal ds < UInt64.size) then
    some (ofDecimal ds)
  else none

/-- what follows `word`, if the text begins with it -/
def after? (word cs : List Char) : Option (List Char) :=
  if word.isPrefixOf cs then some (cs.drop word.length) else none

/-- line and column of a text that is a position and nothing else -/
def position? (cs : List Char) : Option (Nat × Nat) := do
  let cs ← after? lineWords cs
  let line ← place? (cs.takeWhile Char.isDigit)
  let ds ← after? columnWords (cs.dropWhile Char.isDigit)
  let column ← place? ds
  return (line, column)

/-- the usual form of a position; line 0 is none -/
def positionText (line column : Nat) : List Char :=
  if line = 0 then [] else lineWords ++ decimal line ++ columnWords ++ decimal column

/-- the text with a position at its end in the usual form -/
def tidyPosition : List Char → List Char
  | [] => []
  | c :: cs =>
    match position? (c :: cs) with
    | some (line, column) => positionText line column
    | none => c :: tidyPosition cs

end SavedFilter.Text
