import Mathlib.Init

/-!
# Inversion of computations that may fail

A computation in `Except ε` that is put together with `>>=`, `map` and `mapError` succeeds, or
fails, exactly when its parts do. The lemmas take such a computation apart, so that the functions
defined with them need not be unfolded case by case.
-/

namespace Except

universe u v w

variable {ε ε' : Type u} {α β : Type v} {γ : Type w}

theorem bind_eq_ok {x : Except ε α} {f : α → Except ε β} {b : β} :
    x >>= f = .ok b ↔ ∃ a, x = .ok a ∧ f a = .ok b := by
  cases x with
  | error e => exact ⟨nofun, fun ⟨a, ha, _⟩ => by cases ha⟩
  | ok a =>
    constructor
    · intro h
      exact ⟨a, rfl, h⟩
    · rintro ⟨a', ha, h⟩
      rwa [Except.ok.inj ha]

theorem map_eq_ok {x : Except ε α} {f : α → γ} {b : γ} :
    x.map f = .ok b ↔ ∃ a, x = .ok a ∧ f a = b := by
  cases x with
  | error e => exact ⟨nofun, fun ⟨a, ha, _⟩ => by cases ha⟩
  | ok a =>
    constructor
    · intro h
      exact ⟨a, rfl, Except.ok.inj h⟩
    · rintro ⟨a', ha, rfl⟩
      rw [ha]
      rfl

theorem map_map {x : Except ε α} {f : α → β} {g : β → γ} : (x.map f).map g = x.map (g ∘ f) := by
  cases x <;> rfl

theorem map_eq_error {x : Except ε α} {f : α → γ} {e : ε} :
    x.map f = .error e ↔ x = .error e := by
  cases x with
  | error e' => rw [Except.map, Except.error.injEq, Except.error.injEq]
  | ok a => exact iff_of_false nofun nofun

theorem mapError_eq_ok {x : Except ε α} {f : ε → ε'} {a : α} :
    x.mapError f = .ok a ↔ x = .ok a := by
  cases x with
  | error e => exact iff_of_false nofun nofun
  | ok a' =>
    constructor
    · intro h
      rw [Except.ok.inj h]
    · intro h
      rw [h]
      rfl

end Except
