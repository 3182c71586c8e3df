import SavedFilter.Text.Digits

/-!
# Identifiers of 128 bits

An identifier is written as 32 hexadecimal digits in lower case, with hyphens between groups of
8, 4, 4, 4 and 12 of them.
-/

namespace SavedFilter

def Guid.limit : Nat := 0x100000000000000000000000000000000

structure Guid where
  value : Nat
  value_lt : value < Guid.limit
  deriving DecidableEq, Repr

namespace Guid
open Text

def groupSizes : List Nat := [8, 4, 4, 4, 12]

def grouped : List Nat → List Char → List Char
  | [], ds => ds
  | [_], ds => ds
  | n :: ns, ds => ds.take n ++ '-' :: grouped ns (ds.drop n)

def text (g : Guid) : List Char := grouped groupSizes (hex 32 g.value)

/-- the identifier that a number of 128 bits stands for; higher bits are dropped -/
def ofNat (n : Nat) : Guid := ⟨n % limit, Nat.mod_lt _ (by decide)⟩

theorem ofNat_value (g : Guid) : ofNat g.value = g := by
  cases g with
  | mk v h =>
    rw [ofNat, mk.injEq]
    exact Nat.mod_eq_of_lt h

end Guid
end SavedFilter
