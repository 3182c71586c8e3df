import Mathlib.Data.List.TakeWhile
import SavedFilter.Text.Blank

/-!
# Runs of characters

A reader takes a run of characters of some class off the front of a text.  It takes exactly what was
written if the text goes on with a character of another class, or ends (`Stops`).
-/

namespace SavedFilter.Text
variable {p : Char → Bool} {run rest : List Char}

/-- the text does not go on with a character of the class -/
def Stops (p : Char → Bool) (cs : List Char) : Prop := ∀ c ∈ cs.head?, p c = false

theorem stops_nil : Stops p [] := fun _ h => nomatch h

theorem stops_cons {c : Char} (cs : List Char) (h : p c = false) : Stops p (c :: cs) := by
  intro x hx
  rw [← Option.mem_some_iff.mp hx]
  exact h

theorem takeWhile_of_stops (h : Stops p rest) : rest.takeWhile p = [] := by
  cases rest with
  | nil => rfl
  | cons c cs => exact List.takeWhile_cons_of_neg (by rw [h c rfl]; exact Bool.false_ne_true)

theorem dropWhile_of_stops (h : Stops p rest) : rest.dropWhile p = rest := by
  cases rest with
  | nil => rfl
  | cons c cs => exact List.dropWhile_cons_of_neg (by rw [h c rfl]; exact Bool.false_ne_true)

theorem takeWhile_run (hr : ∀ c ∈ run, p c = true) (h : Stops p rest) :
    (run ++ rest).takeWhile p = run := by
  rw [List.takeWhile_append_of_pos hr, takeWhile_of_stops h, List.append_nil]

theorem dropWhile_run (hr : ∀ c ∈ run, p c = true) (h : Stops p rest) :
    (run ++ rest).dropWhile p = rest := by
  rw [List.dropWhile_append_of_pos hr, dropWhile_of_stops h]

/-- a run and what stops it are told by the text they make -/
theorem run_append_inj {run' rest' : List Char} (hr : ∀ c ∈ run, p c = true)
    (hr' : ∀ c ∈ run', p c = true) (h : Stops p rest) (h' : Stops p rest')
    (he : run ++ rest = run' ++ rest') : run = run' ∧ rest = rest' := by
  constructor
  · rw [← takeWhile_run hr h, he, takeWhile_run hr' h']
  · rw [← dropWhile_run hr h, he, dropWhile_run hr' h']

theorem trimStart_cons_of_not_isBlank {c : Char} (cs : List Char) (h : isBlank c = false) :
    trimStart (c :: cs) = c :: cs := dropWhile_of_stops (stops_cons cs h)

end SavedFilter.Text
