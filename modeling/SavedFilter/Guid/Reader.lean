import SavedFilter.Guid.Basic

/-!
# Reading an identifier

The digits, in either case, may stand without hyphens, or in groups with hyphens; the grouped form
may also stand in braces or behind `urn:uuid:`.  A text that has none of these forms is looked at
once more for the reason: its length, a character, the count of groups, or the length of one.
-/

namespace SavedFilter.Guid
open Text

inductive Fault where
  | length (found : Nat)
  | character (found : Char) (index : Nat)
  | groupCount (found : Nat)
  | groupLength (group expected found : Nat)
  deriving DecidableEq, Repr

def Fault.message : Fault → String
  | .length n => "invalid length: found " ++ count n
  | .character c i =>
    "invalid character: found \x60" ++ String.singleton c ++ "\x60 at " ++ count i
  | .groupCount n => "invalid group count: expected 5, found " ++ count n
  | .groupLength g e n =>
    "invalid group length in group " ++ count g ++ ": expected " ++ count e ++
      ", found " ++ count n

/-! ## the forms -/

def inBraces? : List Char → Option (List Char)
  | '{' :: cs => if cs.getLast? = some '}' then some cs.dropLast else none
  | _ => none

def urnPrefix : List Char := "urn:uuid:".toList

/-- the text behind `urn:uuid:`, in either case -/
def behindUrn? (cs : List Char) : Option (List Char) :=
  if (cs.take urnPrefix.length).map Char.toLower = urnPrefix then some (cs.drop urnPrefix.length)
  else none

def bare? (cs : List Char) : Option (List Char) :=
  if cs.length = 32 ∧ cs.all isHex then some cs else none

def groups (cs : List Char) : List (List Char) := cs.splitOn '-'

def hyphenated? (cs : List Char) : Option (List Char) :=
  if (groups cs).map List.length = groupSizes ∧ (groups cs).flatten.all isHex then
    some (groups cs).flatten
  else none

def digits? (cs : List Char) : Option (List Char) :=
  bare? cs <|> hyphenated? cs <|> (inBraces? cs).bind hyphenated? <|>
    (behindUrn? cs).bind hyphenated?

/-! ## the reason -/

/-- What is looked at for the reason.  The wrapping is taken off; if the whole text has just the
length of a wrapped form, what is inside counts as the text. -/
structure Examined where
  inner : List Char
  /-- whether groups with hyphens are expected -/
  grouped : Bool
  /-- the index of the first inner character -/
  base : Nat
  size : Nat

/-- the inner text, behind `base` bytes of a text of `size` bytes -/
def Examined.wrapped (inner : List Char) (base size : Nat) : Examined :=
  if utf8Size inner = 36 then ⟨inner, true, 0, 36⟩ else ⟨inner, true, base, size⟩

def examine (cs : List Char) : Examined :=
  let size := utf8Size cs
  if size = 36 then ⟨cs, true, 0, size⟩
  else
    match inBraces? cs, behindUrn? cs with
    | some inner, _ => .wrapped inner 1 size
    | none, some inner => .wrapped inner urnPrefix.length size
    | none, none => ⟨cs, false, 0, size⟩

/-- the first character that is neither a digit nor a hyphen, with its index in bytes -/
def firstForeign? (index : Nat) : List Char → Option (Char × Nat)
  | [] => none
  | c :: cs =>
    if isHex c || c == '-' then firstForeign? (index + c.utf8Size) cs else some (c, index)

/-- the first group but the last that has a wrong length, with the length it should have -/
def firstWrongGroup? : (group : Nat) → (sizes found : List Nat) → Option Fault
  | group, s :: t :: sizes, f :: found =>
    if f = s then firstWrongGroup? (group + 1) (t :: sizes) found
    else some (.groupLength group s f)
  | _, _, _ => none

def faultOf (cs : List Char) : Fault :=
  let e := examine cs
  let found := (groups e.inner).map List.length
  if e.size = 0 ∨ 45 < utf8Size cs then .length (utf8Size cs)
  else
    match firstForeign? e.base e.inner with
    | some (c, i) => .character c i
    | none =>
      if found.length = 1 ∧ !e.grouped then .length e.size
      else if found.length ≠ groupSizes.length then .groupCount found.length
      else (firstWrongGroup? 0 groupSizes found).getD (.groupLength 4 12 (e.size - 24))

def read (cs : List Char) : Except Fault Guid :=
  match digits? cs with
  | some ds => .ok (ofNat (ofHex ds))
  | none => .error (faultOf cs)

end SavedFilter.Guid
