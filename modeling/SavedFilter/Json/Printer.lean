import SavedFilter.Json.Number

/-!
# The text of a JSON value

Two layouts: `render` writes no spaces at all, `pretty` puts every item and every member on a line
of its own, indented by two spaces for each level.  In a string only the quote, the backslash and
the control characters below `U+0020` are escaped.
-/

namespace SavedFilter.Json
open Text

def escape (c : Char) : List Char :=
  if c = '"' then ['\\', '"']
  else if c = '\\' then ['\\', '\\']
  else if c = '\x08' then ['\\', 'b']
  else if c = '\x0c' then ['\\', 'f']
  else if c = '\n' then ['\\', 'n']
  else if c = '\r' then ['\\', 'r']
  else if c = '\t' then ['\\', 't']
  else if c < ' ' then '\\' :: 'u' :: hex 4 c.toNat
  else [c]

def quoted (s : String) : List Char := '"' :: (s.toList.flatMap escape ++ ['"'])

def scalarText : Json → List Char
  | .bool true => "true".toList
  | .bool false => "false".toList
  | .int n => integer n
  | .double x => doubleText x
  | .str s => quoted s
  | .null | .arr _ | .obj _ => "null".toList

theorem scalarText_str (s : String) : scalarText (.str s) = quoted s := rfl

mutual

def render : Json → List Char
  | .arr items => '[' :: (renderItems items ++ [']'])
  | .obj members => '{' :: (renderMembers members ++ ['}'])
  | v => scalarText v

/-- the items with commas between them -/
def renderItems : List Json → List Char
  | [] => []
  | v :: vs => render v ++ renderMore vs

/-- the items, each behind a comma -/
def renderMore : List Json → List Char
  | [] => []
  | v :: vs => ',' :: (render v ++ renderMore vs)

def renderMembers : List (String × Json) → List Char
  | [] => []
  | (k, v) :: ms => quoted k ++ ':' :: (render v ++ renderMoreMembers ms)

def renderMoreMembers : List (String × Json) → List Char
  | [] => []
  | (k, v) :: ms => ',' :: (quoted k ++ ':' :: (render v ++ renderMoreMembers ms))

end

def newLine (level : Nat) : List Char := '\n' :: List.replicate (2 * level) ' '

mutual

/-- the indented text; the value itself begins at `level` -/
def pretty (level : Nat) : Json → List Char
  | .arr [] => ['[', ']']
  | .arr (v :: vs) =>
    '[' :: (newLine (level + 1) ++ pretty (level + 1) v ++ prettyMore (level + 1) vs
      ++ newLine level ++ [']'])
  | .obj [] => ['{', '}']
  | .obj ((k, v) :: ms) =>
    '{' :: (newLine (level + 1) ++ quoted k ++ ':' :: ' ' :: pretty (level + 1) v
      ++ prettyMoreMembers (level + 1) ms ++ newLine level ++ ['}'])
  | v => scalarText v

def prettyMore (level : Nat) : List Json → List Char
  | [] => []
  | v :: vs => ',' :: (newLine level ++ pretty level v ++ prettyMore level vs)

def prettyMoreMembers (level : Nat) : List (String × Json) → List Char
  | [] => []
  | (k, v) :: ms =>
    ',' :: (newLine level ++ quoted k ++ ':' :: ' ' :: pretty level v
      ++ prettyMoreMembers level ms)

end

def compactText (v : Json) : String := String.ofList (render v)

def prettyText (v : Json) : String := String.ofList (pretty 0 v)

end SavedFilter.Json
