/-!
# Blank characters

A character is blank when it has the Unicode property White_Space.  A field, an operator code or
the start of a number in a date is read without the blanks around it, so the same set serves all
three.  Zero-width characters (`U+200B`, `U+FEFF`) and the separators `U+001C` to `U+001F` do not
have the property and are kept.
-/

namespace SavedFilter.Text

/-- the characters with the Unicode property White_Space -/
def isBlank (c : Char) : Bool :=
  let n := c.toNat
  (0x09 ≤ n && n ≤ 0x0D) || n == 0x20 || n == 0x85 || n == 0xA0 || n == 0x1680 ||
    (0x2000 ≤ n && n ≤ 0x200A) || n == 0x2028 || n == 0x2029 || n == 0x202F || n == 0x205F ||
    n == 0x3000

/-- the text from its first character that is not blank -/
def trimStart (cs : List Char) : List Char := cs.dropWhile isBlank

/-- the text without the blanks at either end -/
def trim (cs : List Char) : List Char := (trimStart (trimStart cs).reverse).reverse

/-- a text of blanks only; the empty text is one -/
def allBlank (s : String) : Bool := s.toList.all isBlank

theorem trimStart_eq_nil_iff (cs : List Char) : trimStart cs = [] ↔ cs.all isBlank = true := by
  induction cs with
  | nil => exact ⟨fun _ => rfl, fun _ => rfl⟩
  | cons c cs ih =>
    rw [trimStart, List.dropWhile_cons, List.all_cons]
    cases isBlank c
    · exact ⟨(fun h => nomatch h), (fun h => nomatch h)⟩
    · exact ih

end SavedFilter.Text
