/-!
# Where a result comes from

A result that is something, and no refusal, was something before every step that it has been
through.
-/

namespace ThemeRepair

variable {ε ε' α β : Type} {x : Except ε α}

/-- What goes on with a result had the result. -/
theorem exists_ok_of_bind {f : α → Except ε β} {b : β} (h : x >>= f = .ok b) :
    ∃ a, x = .ok a ∧ f a = .ok b := by
  cases x with
  | error e => cases h
  | ok a => exact ⟨a, rfl, h⟩

/-- A result that is something after a map was a result before it. -/
theorem exists_ok_of_map {f : α → β} {b : β} (h : x.map f = .ok b) : ∃ a, x = .ok a ∧ f a = b := by
  cases x with
  | error e => cases h
  | ok a => exact ⟨a, rfl, Except.ok.inj h⟩

/-- A result is the same under other names of refusals. -/
theorem ok_of_mapError {f : ε → ε'} {a : α} (h : x.mapError f = .ok a) : x = .ok a := by
  cases x with
  | error e => cases h
  | ok b => rw [Except.ok.inj h]

end ThemeRepair
