import SavedFilter.Json.Reader

/-!
# Passing over a value

A member that nobody asks for is passed over without building its value.  Only its grammar is
looked at: a number may be too great for a double, a surrogate may lack its partner, and nesting
has no limit, because the brackets that are still open are kept in a list.
-/

namespace SavedFilter.Json.Skip
open Reader

/-- a bracket that waits for its partner -/
inductive Bracket where
  | array
  | object
  deriving DecidableEq, Repr

def Bracket.closing : Bracket → Char
  | .array => ']'
  | .object => '}'

def string : List Char → Except Fault (List Char)
  | [] => .error .endOfText
  | c :: cs =>
    if c = '\\' then
      match cs with
      | [] => .error .endOfText
      | e :: cs =>
        if e = 'u' then
          match cs with
          | h₁ :: h₂ :: h₃ :: h₄ :: rest =>
            if [h₁, h₂, h₃, h₄].all Text.isHex then string rest else .error (refuseHex cs)
          | _ => .error (refuseHex cs)
        else if (unescape? e).isSome then string cs
        else .error .malformed
    else if c = '"' then .ok cs
    else if c < ' ' then .error .malformed
    else string cs

def key (cs : List Char) : Except Fault (List Char) :=
  match skipSpace cs with
  | '"' :: cs => do
    let cs ← string cs
    match skipSpace cs with
    | ':' :: cs => .ok cs
    | cs => .error (refuse cs)
  | cs => .error (refuse cs)

def scalar (c : Char) (cs : List Char) : Except Fault (List Char) :=
  if c = '"' then string cs
  else if c = '-' then (numeral true cs).map (·.2)
  else if c.isDigit then (numeral false (c :: cs)).map (·.2)
  else (Reader.scalar c cs).map (·.2)

/-- Behind a value: closing brackets, and if one still waits then, a comma (and a key). -/
def closing : List Bracket → List Char → Except Fault (List Bracket × List Char)
  | [], cs => .ok ([], cs)
  | b :: opened, cs =>
    match skipSpace cs with
    | [] => .error .endOfText
    | c :: rest =>
      if c = ',' then
        match b with
        | .array => .ok (b :: opened, rest)
        | .object => (key rest).map (b :: opened, ·)
      else if c = b.closing then closing opened rest
      else .error .malformed

/-- Up to the place of the next value: one bracket that opens, or one value with what follows it. -/
def advance (opened : List Bracket) (cs : List Char) :
    Except Fault (List Bracket × List Char) :=
  match skipSpace cs with
  | [] => .error .endOfText
  | c :: cs =>
    if c = '[' then
      match skipSpace cs with
      | ']' :: rest => closing opened rest
      | rest => .ok (.array :: opened, rest)
    else if c = '{' then
      match skipSpace cs with
      | '}' :: rest => closing opened rest
      | rest => (key rest).map (.object :: opened, ·)
    else scalar c cs >>= closing opened

/-- the rest of the text when no bracket waits any more -/
def values : (fuel : Nat) → (opened : List Bracket) → List Char → Except Fault (List Char)
  | 0, _, _ => .error .malformed
  | fuel + 1, opened, cs => do
    let (opened, cs) ← advance opened cs
    if opened.isEmpty then .ok cs else values fuel opened cs

def value (cs : List Char) : Except Fault (List Char) := values (cs.length + 1) [] cs

end SavedFilter.Json.Skip
