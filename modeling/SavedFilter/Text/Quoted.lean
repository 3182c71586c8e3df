import SavedFilter.Text.Digits
import SavedFilter.Text.Printable

/-!
# Quoted texts

A message that names a text puts it in double quotes, so that its end and its blanks are seen.
Within them a quote and a backslash have a backslash in front, the control characters with a letter
of their own are written with it, and every other character that is not printable is written by its
number, as in `\u{200b}`.
-/

namespace SavedFilter.Text

def hexNumber (n : Nat) : List Char := Nat.toDigits 16 n

def quoteChar (c : Char) : List Char :=
  if c = '"' then ['\\', '"']
  else if c = '\\' then ['\\', '\\']
  else if c = '\x00' then ['\\', '0']
  else if c = '\t' then ['\\', 't']
  else if c = '\n' then ['\\', 'n']
  else if c = '\r' then ['\\', 'r']
  else if isPrintable c then [c]
  else '\\' :: 'u' :: '{' :: (hexNumber c.toNat ++ ['}'])

def quote (s : String) : String := String.ofList ('"' :: (s.toList.flatMap quoteChar ++ ['"']))

end SavedFilter.Text
