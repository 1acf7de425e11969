import Mathlib.Data.List.Induction
import Rylr998.Lib.Except

/-!
# Runs of a deterministic component

A component is a step function `step : σ → ι → Except ε (ο × σ)`: an operation `ι` in a state `σ`
fails or yields a result `ο` and the next state. `run step` performs a list of operations and
collects the results; it fails when one of them does.

`run_invariant` carries an invariant of the steps to every state a run reaches, and
`run_induction` does the same for a property of the operations performed, their results and the
state. `run_append` and `run_append_inv` cut a run in two. `run_lockstep` compares the runs of two
components. `noted` puts notes beside the state: what a run has done so far can then be said of its
last state (`run_noted_induction`).
-/

namespace Component

variable {σ ι ο ε : Type*} (step : σ → ι → Except ε (ο × σ))

/-- Perform the operations one after the other and collect their results. -/
def run (s : σ) : List ι → Except ε (List ο × σ)
  | [] => .ok ([], s)
  | i :: is =>
    match step s i with
    | .error e => .error e
    | .ok (o, s') => (run s' is).map fun p => (o :: p.1, p.2)

variable {step}

@[simp] theorem run_nil (s : σ) : run step s [] = .ok ([], s) := rfl

theorem run_cons_eq (s : σ) (i : ι) (is : List ι) :
    run step s (i :: is) =
      step s i >>= fun p => (run step p.2 is).map fun q => (p.1 :: q.1, q.2) := by
  rw [run]
  cases step s i with
  | error e => rfl
  | ok p => rfl

theorem run_cons {s s' : σ} {i : ι} {o : ο} (h : step s i = .ok (o, s')) (is : List ι) :
    run step s (i :: is) = (run step s' is).map fun p => (o :: p.1, p.2) := by
  rw [run, h]

theorem run_singleton {s s' : σ} {i : ι} {o : ο} (h : step s i = .ok (o, s')) :
    run step s [i] = .ok ([o], s') := by
  rw [run_cons h]
  rfl

theorem run_cons_error {s : σ} {i : ι} {e : ε} (h : step s i = .error e) (is : List ι) :
    run step s (i :: is) = .error e := by
  rw [run, h]

/-- A run that starts with an operation performs it and goes on from the next state. -/
theorem run_cons_inv {s s' : σ} {i : ι} {is : List ι} {os : List ο}
    (h : run step s (i :: is) = .ok (os, s')) :
    ∃ o s₁ os', step s i = .ok (o, s₁) ∧ run step s₁ is = .ok (os', s') ∧ os = o :: os' := by
  rw [run_cons_eq] at h
  obtain ⟨⟨o, s₁⟩, hi, h⟩ := Except.bind_eq_ok.mp h
  obtain ⟨⟨os', s₂⟩, hr, hos⟩ := Except.map_eq_ok.mp h
  obtain ⟨rfl, rfl⟩ := Prod.mk.inj hos
  exact ⟨o, s₁, os', hi, hr, rfl⟩

/-- A run that starts with an operation fails in it or goes on from the next state and fails. -/
theorem run_cons_error_inv {s : σ} {i : ι} {is : List ι} {e : ε}
    (h : run step s (i :: is) = .error e) :
    step s i = .error e ∨ ∃ o s₁, step s i = .ok (o, s₁) ∧ run step s₁ is = .error e := by
  cases hi : step s i with
  | error e' =>
    rw [run_cons_error hi] at h
    exact Or.inl (congrArg _ (Except.error.inj h))
  | ok p =>
    obtain ⟨o, s₁⟩ := p
    rw [run_cons hi] at h
    exact Or.inr ⟨o, s₁, rfl, Except.map_eq_error.mp h⟩

theorem run_append {s s₁ : σ} {is : List ι} {os : List ο} (h : run step s is = .ok (os, s₁))
    (js : List ι) :
    run step s (is ++ js) = (run step s₁ js).map fun p => (os ++ p.1, p.2) := by
  induction is generalizing s os with
  | nil =>
    cases h
    rw [List.nil_append]
    cases run step s₁ js <;> rfl
  | cons i is ih =>
    obtain ⟨o, s₂, os', hi, hr, rfl⟩ := run_cons_inv h
    rw [List.cons_append, run_cons hi, ih hr]
    cases run step s₁ js <;> rfl

/-- A run that fails still fails when operations follow. -/
theorem run_append_error {s : σ} {is : List ι} {e : ε} (h : run step s is = .error e)
    (js : List ι) : run step s (is ++ js) = .error e := by
  induction is generalizing s with
  | nil => cases h
  | cons i is ih =>
    rw [List.cons_append]
    rcases run_cons_error_inv h with hi | ⟨o, s₁, hi, hr⟩
    · exact run_cons_error hi _
    · rw [run_cons hi]
      exact Except.map_eq_error.mpr (ih hr)

theorem run_append_inv {s s' : σ} {is js : List ι} {os : List ο}
    (h : run step s (is ++ js) = .ok (os, s')) :
    ∃ os₁ s₁ os₂, run step s is = .ok (os₁, s₁) ∧ run step s₁ js = .ok (os₂, s') ∧
      os = os₁ ++ os₂ := by
  cases hi : run step s is with
  | error e => cases (run_append_error hi js).symm.trans h
  | ok p =>
    obtain ⟨os₁, s₁⟩ := p
    rw [run_append hi] at h
    obtain ⟨⟨os₂, s₂⟩, hj, hos⟩ := Except.map_eq_ok.mp h
    obtain ⟨rfl, rfl⟩ := Prod.mk.inj hos
    exact ⟨os₁, s₁, os₂, rfl, hj, rfl⟩

/-- One operation more. -/
theorem run_concat {s s₁ s₂ : σ} {is : List ι} {os : List ο} {i : ι} {o : ο}
    (h : run step s is = .ok (os, s₁)) (hi : step s₁ i = .ok (o, s₂)) :
    run step s (is ++ [i]) = .ok (os ++ [o], s₂) := by
  rw [run_append h, run_cons hi]
  rfl

theorem run_concat_inv {s s₂ : σ} {is : List ι} {os : List ο} {i : ι}
    (h : run step s (is ++ [i]) = .ok (os, s₂)) :
    ∃ os' s₁ o, run step s is = .ok (os', s₁) ∧ step s₁ i = .ok (o, s₂) ∧ os = os' ++ [o] := by
  obtain ⟨os₁, s₁, os₂, h₁, h₂, rfl⟩ := run_append_inv h
  obtain ⟨o, s', os', hi, hn, rfl⟩ := run_cons_inv h₂
  cases hn
  exact ⟨os₁, s₁, o, h₁, hi, rfl⟩

/-- A run fails exactly when one of its operations does. -/
theorem run_error_iff {s : σ} {is : List ι} {e : ε} :
    run step s is = .error e ↔ ∃ js i ks os s', is = js ++ i :: ks ∧ run step s js = .ok (os, s') ∧
      step s' i = .error e := by
  constructor
  · intro h
    induction is generalizing s with
    | nil => cases h
    | cons i is ih =>
      rcases run_cons_error_inv h with hi | ⟨o, s₁, hi, hr⟩
      · exact ⟨[], i, is, [], s, rfl, rfl, hi⟩
      · obtain ⟨js, j, ks, os, s', rfl, hj, hs⟩ := ih hr
        refine ⟨i :: js, j, ks, o :: os, s', rfl, ?_, hs⟩
        rw [run_cons hi, hj]
        rfl
  · rintro ⟨js, i, ks, os, s', rfl, hj, hs⟩
    rw [run_append hj, run_cons_error hs]
    rfl

theorem run_length {s s' : σ} {is : List ι} {os : List ο} (h : run step s is = .ok (os, s')) :
    os.length = is.length := by
  induction is generalizing s os with
  | nil => cases h; rfl
  | cons i is ih =>
    obtain ⟨o, s₁, os', -, hr, rfl⟩ := run_cons_inv h
    simp [ih hr]

/-- **Run induction.** A property of the operations, the results and the state that holds at the
start and is kept by every step holds after every run. -/
theorem run_induction {P : List ι → List ο → σ → Prop} {s₀ : σ} (init : P [] [] s₀)
    (keep : ∀ is os s i o s', run step s₀ is = .ok (os, s) → P is os s →
      step s i = .ok (o, s') → P (is ++ [i]) (os ++ [o]) s') :
    ∀ is os s, run step s₀ is = .ok (os, s) → P is os s := by
  intro is
  induction is using List.reverseRecOn with
  | nil => intro os s h; cases h; exact init
  | append_singleton is i ih =>
    intro os s h
    obtain ⟨os', s₁, o, hr, hi, rfl⟩ := run_concat_inv h
    exact keep is os' s₁ i o s hr (ih os' s₁ hr) hi

/-- **Invariance.** What holds at the start and is kept by every step holds of every state that a
run reaches. -/
theorem run_invariant {I : σ → Prop} (keep : ∀ s i o s', I s → step s i = .ok (o, s') → I s')
    {s₀ : σ} (init : I s₀) {is : List ι} {os : List ο} {s : σ}
    (h : run step s₀ is = .ok (os, s)) : I s :=
  run_induction (P := fun _ _ s => I s) init (fun _ _ s i o s' _ hs hi => keep s i o s' hs hi) is
    os s h

/-- What is collected from the results of a run grows with each step. -/
theorem filterMap_concat {α β : Type*} (f : α → Option β) (l : List α) (a : α) :
    (l ++ [a]).filterMap f = l.filterMap f ++ (f a).toList := by
  rw [List.filterMap_append]
  cases h : f a <;> simp [h]

theorem filterMap_cons {α β : Type*} (f : α → Option β) (a : α) (l : List α) :
    (a :: l).filterMap f = (f a).toList ++ l.filterMap f := by
  rw [List.filterMap_cons]
  cases f a <;> rfl

/-! ### Two components -/

/-- **Lockstep.** Where related states make the same step, with the same result or failure, and lead
to related states, runs from related states have the same results. -/
theorem run_lockstep {τ : Type*} {step' : τ → ι → Except ε (ο × τ)} {R : σ → τ → Prop}
    (hstep : ∀ s t i, R s t → (∀ e, step s i = .error e → step' t i = .error e) ∧
      ∀ o s', step s i = .ok (o, s') → ∃ t', step' t i = .ok (o, t') ∧ R s' t')
    {s : σ} {t : τ} (h : R s t) (is : List ι) :
    (run step s is).map Prod.fst = (run step' t is).map Prod.fst := by
  induction is generalizing s t with
  | nil => rfl
  | cons i is ih =>
    obtain ⟨herror, hok⟩ := hstep s t i h
    cases hi : step s i with
    | error e =>
      rw [run_cons_error hi, run_cons_error (herror e hi)]
      rfl
    | ok p =>
      obtain ⟨o, s'⟩ := p
      obtain ⟨t', hi', h'⟩ := hok o s' hi
      have hrest := ih h'
      rw [run_cons hi, run_cons hi']
      cases hs : run step s' is with
      | error e =>
        cases ht : run step' t' is with
        | error e' =>
          rw [hs, ht] at hrest
          exact congrArg _ (Except.error.inj hrest)
        | ok q => rw [hs, ht] at hrest; cases hrest
      | ok p =>
        cases ht : run step' t' is with
        | error e' => rw [hs, ht] at hrest; cases hrest
        | ok q =>
          rw [hs, ht] at hrest
          exact congrArg (fun os => Except.ok (o :: os)) (Except.ok.inj hrest)

/-! ### Notes -/

variable {ν : Type*}

variable (step) in
/-- The component with notes beside its state: `note s i o s' n` is the note after the step `i` from
`s` to `s'` with the result `o`. The notes have no influence on the steps. -/
def noted (note : σ → ι → ο → σ → ν → ν) (p : σ × ν) (i : ι) : Except ε (ο × (σ × ν)) :=
  (step p.1 i).map fun q => (q.1, q.2, note p.1 i q.1 q.2 p.2)

variable {note : σ → ι → ο → σ → ν → ν}

theorem noted_eq_ok {s s' : σ} {n n' : ν} {i : ι} {o : ο} :
    noted step note (s, n) i = .ok (o, s', n') ↔ step s i = .ok (o, s') ∧ n' = note s i o s' n := by
  rw [noted, Except.map_eq_ok]
  constructor
  · rintro ⟨⟨o₁, s₁⟩, hi, h⟩
    obtain ⟨rfl, hq⟩ := Prod.mk.inj h
    obtain ⟨rfl, rfl⟩ := Prod.mk.inj hq
    exact ⟨hi, rfl⟩
  · rintro ⟨hi, rfl⟩
    exact ⟨(o, s'), hi, rfl⟩

/-- Every run can be noted. -/
theorem exists_run_noted {s s' : σ} {is : List ι} {os : List ο} (h : run step s is = .ok (os, s'))
    (n : ν) : ∃ n', run (noted step note) (s, n) is = .ok (os, s', n') := by
  induction is generalizing s n os with
  | nil =>
    cases h
    exact ⟨n, rfl⟩
  | cons i is ih =>
    obtain ⟨o, s₁, os', hi, hr, rfl⟩ := run_cons_inv h
    obtain ⟨n', hn⟩ := ih hr (note s i o s₁ n)
    refine ⟨n', ?_⟩
    rw [run_cons (noted_eq_ok.mpr ⟨hi, rfl⟩), hn]
    rfl

/-- The run without its notes. -/
theorem run_of_noted {s s' : σ} {n n' : ν} {is : List ι} {os : List ο}
    (h : run (noted step note) (s, n) is = .ok (os, s', n')) : run step s is = .ok (os, s') := by
  induction is generalizing s n os with
  | nil =>
    cases h
    rfl
  | cons i is ih =>
    obtain ⟨o, ⟨s₁, n₁⟩, os', hi, hr, rfl⟩ := run_cons_inv h
    rw [run_cons (noted_eq_ok.mp hi).1, ih hr]
    rfl

/-- **Run induction with notes.** -/
theorem run_noted_induction {P : List ι → List ο → σ → ν → Prop} {s₀ : σ} {n₀ : ν}
    (init : P [] [] s₀ n₀)
    (keep : ∀ is os s n i o s', run (noted step note) (s₀, n₀) is = .ok (os, s, n) → P is os s n →
      step s i = .ok (o, s') → P (is ++ [i]) (os ++ [o]) s' (note s i o s' n)) :
    ∀ is os s n, run (noted step note) (s₀, n₀) is = .ok (os, s, n) → P is os s n := by
  intro is os s n h
  refine run_induction (P := fun is os q => P is os q.1 q.2) init ?_ is os (s, n) h
  rintro is os ⟨s, n⟩ i o ⟨s', n'⟩ hr hp hi
  obtain ⟨hstep, rfl⟩ := noted_eq_ok.mp hi
  exact keep is os s n i o s' hr hp hstep

end Component
