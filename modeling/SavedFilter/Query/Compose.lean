import SavedFilter.Query.Operators

/-!
# Composing a query

A condition is put to the end of the buffer by the emitter of its operator.  A group stands in
parentheses, with its word between its members.  A condition without a field, one for which the
emitter writes no text, and a group in which nothing is written are left out, together with the
values that were bound for them and with the word in front of them.

An emitter sees the buffer as it is when its turn comes, with the open parentheses and the word in
front of it, also where these are taken back later.
-/

namespace SavedFilter

/-- the buffer with a condition at its end, if there is anything to write -/
def Condition.compose? (ops : Operators) (b : Buffer) (c : Condition) : Option Buffer :=
  if c.isUsable then
    let q := ops.find c.operatorCode c b
    if q.isEmpty then none else some (b.add q)
  else none

namespace Rule

def separator (j : Join) : String := " " ++ j.keyword ++ " "

mutual

/-- the buffer with a rule at its end, if there is anything to write -/
def compose? (ops : Operators) (b : Buffer) : Rule → Option Buffer
  | .condition c => c.compose? ops b
  | .group join members _ =>
    (composeAll? ops join (b.write "(") false members).map fun b => b.write ")"

/-- The buffer with the members of a group at its end; `started` tells that one has been written
already. -/
def composeAll? (ops : Operators) (join : Join) (b : Buffer) (started : Bool) :
    List Rule → Option Buffer
  | [] => if started then some b else none
  | r :: rs =>
    match compose? ops (if started then b.write (separator join) else b) r with
    | some longer => composeAll? ops join longer true rs
    | none => composeAll? ops join b started rs

end

def query (ops : Operators) (token : String) (r : Rule) : Query :=
  ((r.compose? ops (.empty token)).getD (.empty token)).query

theorem composeAll?_nil (ops : Operators) (join : Join) (b : Buffer) (started : Bool) :
    composeAll? ops join b started [] = if started then some b else none := rfl

end Rule

def Group.query (ops : Operators) (token : String) (g : Group) : Query := g.toRule.query ops token

def defaultToken : String := "StringComparison.OrdinalIgnoreCase"

end SavedFilter
