import Mathlib.Data.List.Basic

/-!
# Bounded channels

A first-in first-out channel with room for `capacity` elements. A sender waits while the channel is
full (`send?_eq_none_iff`) and a receiver while it is empty; nothing is lost and nothing changes its
place (`send?_eq_some_iff`, `recv?_eq_some_iff`).
-/

/-- A channel. -/
@[ext] structure Channel (α : Type*) (capacity : Nat) where
  /-- What has been sent and not been received yet, in order. -/
  queue : List α
  length_le : queue.length ≤ capacity

namespace Channel

variable {α : Type*} {capacity : Nat}

instance [DecidableEq α] : DecidableEq (Channel α capacity) :=
  fun c d => decidable_of_iff (c.queue = d.queue) Channel.ext_iff.symm

/-- The empty channel. -/
def empty : Channel α capacity := ⟨[], Nat.zero_le _⟩

/-- There is no room. -/
def Full (c : Channel α capacity) : Prop := c.queue.length = capacity

instance (c : Channel α capacity) : Decidable c.Full := inferInstanceAs (Decidable (_ = _))

/-- The channel with one more element, when there is room. -/
def send? (c : Channel α capacity) (a : α) : Option (Channel α capacity) :=
  if h : c.queue.length < capacity then
    some ⟨c.queue ++ [a], by rw [List.length_append]; exact h⟩
  else none

/-- The oldest element and the channel without it. -/
def recv? (c : Channel α capacity) : Option (α × Channel α capacity) :=
  match c with
  | ⟨[], _⟩ => none
  | ⟨a :: queue, h⟩ => some (a, ⟨queue, Nat.le_of_succ_le h⟩)

theorem send?_eq_some_iff {c c' : Channel α capacity} {a : α} :
    c.send? a = some c' ↔ ¬ c.Full ∧ c'.queue = c.queue ++ [a] := by
  have hle := c.length_le
  unfold send? Full
  by_cases hroom : c.queue.length < capacity
  · rw [dif_pos hroom, Option.some.injEq, Channel.ext_iff, eq_comm]
    exact (and_iff_right (Nat.ne_of_lt hroom)).symm
  · rw [dif_neg hroom]
    exact iff_of_false (by simp) fun h => h.1 (by omega)

theorem send?_eq_none_iff {c : Channel α capacity} {a : α} : c.send? a = none ↔ c.Full := by
  have hle := c.length_le
  unfold send? Full
  by_cases hroom : c.queue.length < capacity
  · rw [dif_pos hroom]
    exact iff_of_false (by simp) (Nat.ne_of_lt hroom)
  · rw [dif_neg hroom]
    exact iff_of_true rfl (by omega)

theorem recv?_eq_some_iff {c c' : Channel α capacity} {a : α} :
    c.recv? = some (a, c') ↔ c.queue = a :: c'.queue := by
  rcases c with ⟨_ | ⟨b, queue⟩, h⟩
  · exact iff_of_false (by simp [recv?]) (by simp)
  · rw [recv?, Option.some.injEq, Prod.mk.injEq, Channel.ext_iff, List.cons.injEq]

/-- There is room after an element has been taken. -/
theorem not_full_of_recv? {c c' : Channel α capacity} {a : α} (h : c.recv? = some (a, c')) :
    ¬ c'.Full := by
  have hle := c.length_le
  rw [recv?_eq_some_iff.mp h, List.length_cons] at hle
  exact Nat.ne_of_lt hle

end Channel
