import SavedFilter.Json.Number

/-!
# Reading JSON

A reader takes what it understands from the front of the text and hands back the rest.  It fails in
two ways: the text ends where more is needed (`Fault.endOfText`), or something stands there that
JSON does not allow (`Fault.malformed`); a number too great for a double, a surrogate without its
partner and arrays and objects nested more than `maxNesting` deep are malformed too.

`value fuel depth` reads one value in which `depth` levels of arrays and objects may still open.
The recursion is on that depth; the items of an array and the members of an object are loops, and
`fuel` bounds the number of their rounds.  Each round takes a character at least, so the length of
the text and one more is enough (`parse`).
-/

namespace SavedFilter.Json
open Text

inductive Fault where
  | endOfText
  | malformed
  deriving DecidableEq, Repr

def maxNesting : Nat := 127

namespace Reader

def isSpace (c : Char) : Bool := c == ' ' || c == '\n' || c == '\t' || c == '\r'

def skipSpace (cs : List Char) : List Char := cs.dropWhile isSpace

/-- nothing can be read here: at the end more is needed, and anything else is wrong -/
def refuse (cs : List Char) : Fault := if cs.isEmpty then .endOfText else .malformed

def word : List Char → List Char → Except Fault (List Char)
  | [], cs => .ok cs
  | _ :: _, [] => .error .endOfText
  | w :: ws, c :: cs => if w = c then word ws cs else .error .malformed

/-! ## strings -/

def unescape? (c : Char) : Option Char :=
  if c = '"' then some '"'
  else if c = '\\' then some '\\'
  else if c = '/' then some '/'
  else if c = 'b' then some '\x08'
  else if c = 'f' then some '\x0c'
  else if c = 'n' then some '\n'
  else if c = 'r' then some '\r'
  else if c = 't' then some '\t'
  else none

def isHighSurrogate (n : Nat) : Bool := 0xD800 ≤ n && n < 0xDC00
def isLowSurrogate (n : Nat) : Bool := 0xDC00 ≤ n && n < 0xE000

def pairChar (high low : Nat) : Char :=
  Char.ofNat (0x10000 + (high - 0xD800) * 0x400 + (low - 0xDC00))

/-- why the four hexadecimal digits of an escape are missing: fewer than four bytes are left, or
others stand there -/
def refuseHex (cs : List Char) : Fault :=
  if utf8Size (cs.take 4) < 4 then .endOfText else .malformed

/-- The characters up to the closing quote, behind the ones already read (`done`, the last in
front).  Behind the escape of a high surrogate (`high`) only that of a low one may follow. -/
def stringBody (high : Option Nat) (done : List Char) :
    List Char → Except Fault (List Char × List Char)
  | [] => .error .endOfText
  | c :: cs =>
    if c = '\\' then
      match cs with
      | [] => .error .endOfText
      | e :: cs =>
        if e = 'u' then
          match cs with
          | h₁ :: h₂ :: h₃ :: h₄ :: rest =>
            if [h₁, h₂, h₃, h₄].all isHex then
              let n := ofHex [h₁, h₂, h₃, h₄]
              match high with
              | some h =>
                if isLowSurrogate n then stringBody none (pairChar h n :: done) rest
                else .error .malformed
              | none =>
                if isLowSurrogate n then .error .malformed
                else if isHighSurrogate n then stringBody (some n) done rest
                else stringBody none (Char.ofNat n :: done) rest
            else .error (refuseHex cs)
          | _ => .error (refuseHex cs)
        else
          match high, unescape? e with
          | none, some x => stringBody none (x :: done) cs
          | _, _ => .error .malformed
    else if high.isSome then .error .malformed
    else if c = '"' then .ok (done.reverse, cs)
    else if c < ' ' then .error .malformed
    else stringBody none (c :: done) cs

def string (cs : List Char) : Except Fault (String × List Char) :=
  (stringBody none [] cs).map fun r => (String.ofList r.1, r.2)

/-! ## numbers -/

def someDigits (cs : List Char) : Except Fault (List Char × List Char) :=
  match cs.takeWhile Char.isDigit with
  | [] => .error (refuse cs)
  | ds => .ok (ds, cs.dropWhile Char.isDigit)

/-- the digits in front of the point: a leading zero stands alone -/
def wholeDigits (cs : List Char) : Except Fault (List Char × List Char) :=
  match someDigits cs with
  | .ok ('0' :: _ :: _, _) => .error .malformed
  | r => r

def fractionPart : List Char → Except Fault (Option (List Char) × List Char)
  | '.' :: cs => (someDigits cs).map fun r => (some r.1, r.2)
  | cs => .ok (none, cs)

def exponentPart : List Char → Except Fault (Option (Bool × List Char) × List Char)
  | [] => .ok (none, [])
  | e :: cs =>
    if e = 'e' ∨ e = 'E' then
      match cs with
      | '-' :: cs => (someDigits cs).map fun r => (some (true, r.1), r.2)
      | '+' :: cs => (someDigits cs).map fun r => (some (false, r.1), r.2)
      | cs => (someDigits cs).map fun r => (some (false, r.1), r.2)
    else .ok (none, e :: cs)

def numeral (negative : Bool) (cs : List Char) : Except Fault (Numeral × List Char) := do
  let (whole, cs) ← wholeDigits cs
  let (fraction, cs) ← fractionPart cs
  let (exponent, cs) ← exponentPart cs
  .ok (⟨negative, whole, fraction, exponent⟩, cs)

def number (negative : Bool) (cs : List Char) : Except Fault (Json × List Char) := do
  let (n, cs) ← numeral negative cs
  match n.value? with
  | some v => .ok (v, cs)
  | none => .error .malformed

/-! ## values -/

def scalar (c : Char) (cs : List Char) : Except Fault (Json × List Char) :=
  if c = '"' then (string cs).map fun r => (.str r.1, r.2)
  else if c = '-' then number true cs
  else if c.isDigit then number false (c :: cs)
  else if c = 't' then (word "rue".toList cs).map (.bool true, ·)
  else if c = 'f' then (word "alse".toList cs).map (.bool false, ·)
  else if c = 'n' then (word "ull".toList cs).map (.null, ·)
  else .error .malformed

section
variable {α : Type} (read : List Char → Except Fault (α × List Char))

/-- the items of an array from the first one on, behind the ones already read -/
def moreItems : (fuel : Nat) → (done : List α) → List Char → Except Fault (List α × List Char)
  | 0, _, _ => .error .malformed
  | fuel + 1, done, cs => do
    let (v, cs) ← read cs
    match skipSpace cs with
    | ',' :: cs => moreItems fuel (v :: done) cs
    | ']' :: cs => .ok ((v :: done).reverse, cs)
    | cs => .error (refuse cs)

def items (fuel : Nat) (cs : List Char) : Except Fault (List α × List Char) :=
  match skipSpace cs with
  | ']' :: cs => .ok ([], cs)
  | cs => moreItems read fuel [] cs

end

def key (cs : List Char) : Except Fault (String × List Char) :=
  match skipSpace cs with
  | '"' :: cs => do
    let (k, cs) ← string cs
    match skipSpace cs with
    | ':' :: cs => .ok (k, cs)
    | cs => .error (refuse cs)
  | cs => .error (refuse cs)

section
variable {α : Type} (readAt : String → List Char → Except Fault (α × List Char))

/-- The members of an object from the first one on, behind the ones already read.  How a value is
read may depend on its key. -/
def moreMembers : (fuel : Nat) → (done : List (String × α)) → List Char →
    Except Fault (List (String × α) × List Char)
  | 0, _, _ => .error .malformed
  | fuel + 1, done, cs => do
    let (k, cs) ← key cs
    let (v, cs) ← readAt k cs
    match skipSpace cs with
    | ',' :: cs => moreMembers fuel ((k, v) :: done) cs
    | '}' :: cs => .ok (((k, v) :: done).reverse, cs)
    | cs => .error (refuse cs)

def members (fuel : Nat) (cs : List Char) : Except Fault (List (String × α) × List Char) :=
  match skipSpace cs with
  | '}' :: cs => .ok ([], cs)
  | cs => moreMembers readAt fuel [] cs

end

/-- one value, with at most `depth` levels of arrays and objects -/
def value (fuel : Nat) : (depth : Nat) → List Char → Except Fault (Json × List Char)
  | 0, cs =>
    match skipSpace cs with
    | [] => .error .endOfText
    | c :: cs => if c = '[' ∨ c = '{' then .error .malformed else scalar c cs
  | depth + 1, cs =>
    match skipSpace cs with
    | [] => .error .endOfText
    | c :: cs =>
      if c = '[' then (items (value fuel depth) fuel cs).map fun r => (.arr r.1, r.2)
      else if c = '{' then
        (members (fun _ => value fuel depth) fuel cs).map fun r => (.obj (collapse r.1), r.2)
      else scalar c cs

def atEnd {α : Type} (r : α × List Char) : Except Fault α :=
  if (skipSpace r.2).isEmpty then .ok r.1 else .error .malformed

end Reader

open Reader in
def parse (cs : List Char) : Except Fault Json := value (cs.length + 1) maxNesting cs >>= atEnd

def parseText (s : String) : Except Fault Json := parse s.toList

end SavedFilter.Json
