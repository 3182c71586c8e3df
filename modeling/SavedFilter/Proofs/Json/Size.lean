import Mathlib.Data.List.Forall2
import SavedFilter.Json.Printer

/-!
# The size of a text

How many bytes the text of a JSON value takes.  The texts of arrays and objects are put together
from those of their items and members, so a value with shorter parts has a shorter text.

* `utf8ByteSize_compactText`       the size of a text is that of its characters;
* `size_arr_le`, `size_obj_le`     shorter parts give a shorter text;
* `utf8Size_renderMore_replicate`  equal items take equally many bytes.
-/

namespace SavedFilter

namespace Text

theorem utf8ByteSize_ofList (cs : List Char) : (String.ofList cs).utf8ByteSize = utf8Size cs := by
  have hfold : ∀ n, cs.foldl (fun n c => n + c.utf8Size) n =
      n + (String.ofList cs).utf8ByteSize := by
    induction cs with
    | nil => exact fun _ => rfl
    | cons c cs ih =>
      intro n
      rw [List.foldl_cons, ih, String.ofList_cons, String.utf8ByteSize_append,
        String.utf8ByteSize_singleton, Nat.add_assoc]
  rw [utf8Size, hfold, Nat.zero_add]

theorem utf8Size_append (as bs : List Char) :
    utf8Size (as ++ bs) = utf8Size as + utf8Size bs := by
  rw [← utf8ByteSize_ofList, ← utf8ByteSize_ofList, ← utf8ByteSize_ofList, String.ofList_append,
    String.utf8ByteSize_append]

theorem utf8Size_cons (c : Char) (cs : List Char) :
    utf8Size (c :: cs) = c.utf8Size + utf8Size cs := by
  rw [← utf8ByteSize_ofList, ← utf8ByteSize_ofList, String.ofList_cons, String.utf8ByteSize_append,
    String.utf8ByteSize_singleton]

end Text

namespace Json
open Text

/-- the bytes of the text -/
def size (v : Json) : Nat := utf8Size (render v)

theorem utf8ByteSize_compactText (v : Json) : v.compactText.utf8ByteSize = v.size :=
  utf8ByteSize_ofList (render v)

theorem size_str (cs : List Char) :
    (Json.str (String.ofList cs)).size = utf8Size (cs.flatMap escape) + 2 := by
  have hquote : Char.utf8Size '"' = 1 := rfl
  have hclose : utf8Size ['"'] = 1 := rfl
  show utf8Size (quoted (String.ofList cs)) = _
  rw [quoted, String.toList_ofList, utf8Size_cons, utf8Size_append, hquote, hclose, Nat.add_comm]

/-- a string takes no less when a character is put in front -/
theorem size_str_le (c : Char) (cs : List Char) :
    (Json.str (String.ofList cs)).size ≤ (Json.str (String.ofList (c :: cs))).size := by
  rw [size_str, size_str, List.flatMap_cons, utf8Size_append]
  exact Nat.add_le_add_right (Nat.le_add_left _ _) 2

section
variable {vs ws : List Json}

theorem utf8Size_renderMore_le (h : List.Forall₂ (fun v w => v.size ≤ w.size) vs ws) :
    utf8Size (renderMore vs) ≤ utf8Size (renderMore ws) := by
  induction h with
  | nil => exact Nat.le_refl _
  | cons hv _ ih =>
    simp only [size] at hv
    simp only [renderMore, utf8Size_cons, utf8Size_append]
    omega

theorem size_arr_le (h : List.Forall₂ (fun v w => v.size ≤ w.size) vs ws) :
    (Json.arr vs).size ≤ (Json.arr ws).size := by
  cases h with
  | nil => exact Nat.le_refl _
  | cons hv hvs =>
    have hmore := utf8Size_renderMore_le hvs
    simp only [size] at hv
    simp only [size, render, renderItems, utf8Size_cons, utf8Size_append]
    omega

end

theorem size_arr_singleton (v : Json) : (Json.arr [v]).size = v.size + 2 := by
  have hmarks : Char.utf8Size '[' = 1 ∧ Char.utf8Size ']' = 1 := by decide
  have hnil : utf8Size [] = 0 := rfl
  simp only [size, render, renderItems, renderMore, utf8Size_cons, utf8Size_append]
  omega

/-- the first of several items -/
theorem size_arr_cons (v w : Json) (ws : List Json) :
    (Json.arr (v :: w :: ws)).size = v.size + 1 + (Json.arr (w :: ws)).size := by
  have hcomma : Char.utf8Size ',' = 1 := by decide
  simp only [size, render, renderItems, renderMore, utf8Size_cons, utf8Size_append]
  omega

theorem size_arr_nil : (Json.arr []).size = 2 := by decide

/-- an item adds a byte at least beside its own -/
theorem size_arr_lt (v : Json) (vs : List Json) :
    (Json.arr vs).size + v.size ≤ (Json.arr (v :: vs)).size := by
  cases vs with
  | nil =>
    rw [size_arr_singleton, size_arr_nil]
    omega
  | cons w ws =>
    rw [size_arr_cons]
    omega

/-- what the first item and the others save, an array of both saves -/
theorem size_arr_add_le {v w : Json} {vs ws : List Json} {m n : Nat} (hv : v.size + m ≤ w.size)
    (hvs : (Json.arr vs).size + n ≤ (Json.arr ws).size) (hnil : ws = [] → vs = []) :
    (Json.arr (v :: vs)).size + (m + n) ≤ (Json.arr (w :: ws)).size := by
  cases vs with
  | nil =>
    rw [size_arr_nil] at hvs
    have hws := size_arr_lt w ws
    rw [size_arr_singleton]
    omega
  | cons v' vs =>
    obtain ⟨w', ws, rfl⟩ := List.exists_cons_of_ne_nil fun h => List.cons_ne_nil v' vs (hnil h)
    rw [size_arr_cons, size_arr_cons]
    omega

theorem size_obj_singleton (k : String) (v : Json) :
    (Json.obj [(k, v)]).size = (Json.str k).size + v.size + 3 := by
  have hmarks : Char.utf8Size '{' = 1 ∧ Char.utf8Size ':' = 1 ∧ Char.utf8Size '}' = 1 := by decide
  have hnil : utf8Size [] = 0 := rfl
  simp only [size, render, scalarText_str, renderMembers, renderMoreMembers, utf8Size_cons,
    utf8Size_append]
  omega

/-- the first of several members -/
theorem size_obj_cons (k : String) (v : Json) (m : String × Json) (ms : List (String × Json)) :
    (Json.obj ((k, v) :: m :: ms)).size =
      (Json.str k).size + v.size + 2 + (Json.obj (m :: ms)).size := by
  have hmarks : Char.utf8Size ':' = 1 ∧ Char.utf8Size ',' = 1 := by decide
  obtain ⟨k', v'⟩ := m
  simp only [size, render, scalarText_str, renderMembers, renderMoreMembers, utf8Size_cons,
    utf8Size_append]
  omega

theorem utf8Size_renderMoreMembers_swap (before after : List (String × Json)) (k : String)
    (v w : Json) :
    utf8Size (renderMoreMembers (before ++ (k, v) :: after)) + w.size =
      utf8Size (renderMoreMembers (before ++ (k, w) :: after)) + v.size := by
  induction before with
  | nil =>
    simp only [List.nil_append, renderMoreMembers, utf8Size_cons, utf8Size_append, size]
    omega
  | cons m before ih =>
    simp only [List.cons_append, renderMoreMembers, utf8Size_cons, utf8Size_append]
    omega

/-- the value of a member takes in an object what it takes alone -/
theorem size_obj_swap (before after : List (String × Json)) (k : String) (v w : Json) :
    (Json.obj (before ++ (k, v) :: after)).size + w.size =
      (Json.obj (before ++ (k, w) :: after)).size + v.size := by
  cases before with
  | nil =>
    simp only [List.nil_append, size, render, renderMembers, utf8Size_cons, utf8Size_append]
    omega
  | cons m before =>
    have hmore := utf8Size_renderMoreMembers_swap before after k v w
    simp only [size] at hmore
    simp only [List.cons_append, size, render, renderMembers, utf8Size_cons, utf8Size_append]
    omega

/-- what the value of a member saves, the object saves -/
theorem size_obj_add_le (before after : List (String × Json)) (k : String) {v w : Json} {n : Nat}
    (h : v.size + n ≤ w.size) :
    (Json.obj (before ++ (k, v) :: after)).size + n ≤
      (Json.obj (before ++ (k, w) :: after)).size := by
  have hswap := size_obj_swap before after k v w
  omega

/-- a member with the same key and a value that takes no more -/
def NotLonger (m n : String × Json) : Prop := m.1 = n.1 ∧ m.2.size ≤ n.2.size

theorem NotLonger.refl (m : String × Json) : NotLonger m m := ⟨rfl, Nat.le_refl _⟩

instance : Std.Refl NotLonger := ⟨NotLonger.refl⟩

section
variable {ms ns : List (String × Json)}

theorem utf8Size_renderMoreMembers_le (h : List.Forall₂ NotLonger ms ns) :
    utf8Size (renderMoreMembers ms) ≤ utf8Size (renderMoreMembers ns) := by
  induction h with
  | nil => exact Nat.le_refl _
  | cons hm _ ih =>
    obtain ⟨hk, hv⟩ := hm
    simp only [size] at hv
    simp only [renderMoreMembers, utf8Size_cons, utf8Size_append, hk]
    omega

theorem size_obj_le (h : List.Forall₂ NotLonger ms ns) :
    (Json.obj ms).size ≤ (Json.obj ns).size := by
  cases h with
  | nil => exact Nat.le_refl _
  | cons hm hms =>
    have hmore := utf8Size_renderMoreMembers_le hms
    obtain ⟨hk, hv⟩ := hm
    simp only [size] at hv
    simp only [size, render, renderMembers, utf8Size_cons, utf8Size_append, hk]
    omega

end

theorem utf8Size_renderMore_replicate (n : Nat) (v : Json) :
    utf8Size (renderMore (List.replicate n v)) = n * (v.size + 1) := by
  induction n with
  | zero => exact (Nat.zero_mul _).symm
  | succ n ih =>
    have hcomma : Char.utf8Size ',' = 1 := rfl
    rw [List.replicate_succ, renderMore, utf8Size_cons, utf8Size_append, ih, hcomma,
      Nat.add_one_mul, size]
    omega

/-- equal items take equally many bytes, and a comma or a bracket each -/
theorem size_replicate {n : Nat} (hn : 0 < n) (v : Json) :
    (Json.arr (List.replicate n v)).size = n * (v.size + 1) + 1 := by
  obtain ⟨k, rfl⟩ := Nat.exists_eq_add_one.mpr hn
  have hopen : Char.utf8Size '[' = 1 := rfl
  have hclose : utf8Size [']'] = 1 := rfl
  rw [size, List.replicate_succ, render, renderItems, utf8Size_cons, utf8Size_append,
    utf8Size_append, utf8Size_renderMore_replicate, hopen, hclose, Nat.add_one_mul, size]
  omega

end Json
end SavedFilter
