/-!
# Results of steps that can fail

A computation of several steps taken apart: what it ends with, by what its first step ended with.
-/

namespace SavedFilter

variable {ε ε' α β : Type}

section
variable {x : Except ε α}

theorem bind_eq_ok {f : α → Except ε β} {b : β} :
    (x >>= f) = .ok b ↔ ∃ a, x = .ok a ∧ f a = .ok b := by
  cases x <;> simp [bind, Except.bind]

theorem bind_eq_error {f : α → Except ε β} {e : ε} :
    (x >>= f) = .error e ↔ x = .error e ∨ ∃ a, x = .ok a ∧ f a = .error e := by
  cases x <;> simp [bind, Except.bind]

theorem map_eq_ok {f : α → β} {b : β} : x.map f = .ok b ↔ ∃ a, x = .ok a ∧ f a = b := by
  cases x <;> simp [Except.map]

theorem map_eq_error {f : α → β} {e : ε} : x.map f = .error e ↔ x = .error e := by
  cases x <;> simp [Except.map]

theorem error_ne_ok {e : ε} {a : α} : (Except.error e : Except ε α) ≠ .ok a := by
  intro h
  cases h

theorem toOption_eq_some {a : α} : x.toOption = some a ↔ x = .ok a := by
  cases x <;> simp [Except.toOption]

theorem toOption_eq_none : x.toOption = none ↔ ∃ e, x = .error e := by
  cases x <;> simp [Except.toOption]

theorem mapError_eq_ok {f : ε → ε'} {a : α} : x.mapError f = .ok a ↔ x = .ok a := by
  cases x with
  | error e => exact ⟨fun h => (by cases h), fun h => (by cases h)⟩
  | ok b => exact ⟨fun h => congrArg _ (Except.ok.inj h), fun h => congrArg _ (Except.ok.inj h)⟩

theorem mapError_eq_error {f : ε → ε'} {e' : ε'} :
    x.mapError f = .error e' ↔ ∃ e, x = .error e ∧ f e = e' := by
  cases x with
  | error e =>
    constructor
    · intro h
      exact ⟨e, rfl, Except.error.inj h⟩
    · rintro ⟨d, hd, rfl⟩
      rw [Except.error.inj hd]
      rfl
  | ok b =>
    constructor
    · intro h
      cases h
    · rintro ⟨d, hd, -⟩
      cases hd

end

/-! ## one step after another -/

section
variable {step : β → α → Except ε β} {xs : List α} {a b : β}

/-- a run fails with one of its steps -/
theorem exists_of_foldlM_eq_error {e : ε} (h : xs.foldlM step a = .error e) :
    ∃ x ∈ xs, ∃ c, step c x = .error e := by
  induction xs generalizing a with
  | nil => cases h
  | cons x xs ih =>
    rw [List.foldlM_cons] at h
    rcases bind_eq_error.mp h with h | ⟨c, -, h⟩
    · exact ⟨x, List.mem_cons_self, a, h⟩
    · obtain ⟨y, hy, hc⟩ := ih h
      exact ⟨y, List.mem_cons_of_mem x hy, hc⟩

/-- what no step changes stays as it is -/
theorem foldlM_frame {γ : Type} {part : β → γ}
    (hstep : ∀ x ∈ xs, ∀ c d, step c x = .ok d → part d = part c) (h : xs.foldlM step a = .ok b) :
    part b = part a := by
  induction xs generalizing a with
  | nil => rw [← Except.ok.inj h]
  | cons x xs ih =>
    rw [List.foldlM_cons] at h
    obtain ⟨c, hc, h⟩ := bind_eq_ok.mp h
    obtain ⟨hx, hxs⟩ := List.forall_mem_cons.mp hstep
    rw [ih hxs h, hx a c hc]

end

end SavedFilter
