import Rylr998.Core.Equiv.Vanish

/-!
# Refused commands

`submit` sets the reset flag before it encodes the command, and does not set it back when it then
returns an error. A refused command leaves the driver as it was exactly when it does not change the
flag (`refusals_atomic_iff`). An early `+READY` ends a factory reset whose bytes are never
acknowledged; fifty-one of them fill `tx` so far that the next factory reset is refused with the
flag set (`not_refusals_atomic`).
-/

namespace Rylr998

/-- `submit` has no room for the command, and the reset flag is not the one it sets. -/
def Driver.FlagLost (d : Driver) (cmd : Command) : Prop :=
  d.state = .idle ∧ txBuf < d.tx.len + (wire cmd).length ∧
    d.awaitingReadyAsOk ≠ decide (cmd = .factoryReset)

/-- In the run of `ops`, `cmd` is submitted to `d`. -/
def SubmitAt [Target] (ops : List Op) (d : Driver) (cmd : Command) : Prop :=
  ∃ pre calls, pre ++ [.submit cmd] <+: ops ∧ Runs pre calls d

/-- A command that is refused leaves every field of the driver as it was. -/
def RefusalsAtomic [Target] (ops : List Op) : Prop :=
  ∀ d cmd e d', StepAt ops d (.submit cmd (.error e)) d' → d' = d

theorem Driver.withFlag_eq_iff {d : Driver} {flag : Bool} :
    ({ d with awaitingReadyAsOk := flag } : Driver) = d ↔ d.awaitingReadyAsOk = flag := by
  constructor
  · intro h
    rw [← h]
  · rintro rfl
    rfl

/-- A refused command leaves the driver as it was exactly when the flag is not lost. -/
theorem Driver.submit_error_iff {d d' : Driver} {cmd : Command} {e : Error}
    (h : d.submit cmd = .ok (.error e, d')) : d' = d ↔ ¬ d.FlagLost cmd := by
  rcases submit_error_inv h with ⟨-, hbusy, rfl⟩ | ⟨-, hidle, hfull, rfl⟩
  · refine iff_of_true rfl ?_
    rintro ⟨hidle, -⟩
    exact hbusy hidle
  · rw [withFlag_eq_iff]
    constructor
    · rintro hflag ⟨-, -, hne⟩
      exact hne hflag
    · intro hlost
      by_contra hne
      exact hlost ⟨hidle, hfull, hne⟩

section Runs

variable [Target]

theorem Driver.step_submit_iff {d d' : Driver} {op : Op} {cmd : Command}
    {r : Except Error Unit} : d.step op = .ok (.submit cmd r, d') ↔
      op = .submit cmd ∧ d.submit cmd = .ok (r, d') := by
  cases op with
  | submit cmd' =>
    rw [step, Except.map_eq_ok]
    constructor
    · rintro ⟨⟨r', d₁⟩, hs, h⟩
      cases h
      exact ⟨rfl, hs⟩
    · rintro ⟨h, hs⟩
      cases h
      exact ⟨(r, d'), hs, rfl⟩
  | pushRx bytes | poll =>
    refine iff_of_false ?_ (by simp)
    intro h
    obtain ⟨p, -, hp⟩ := Except.map_eq_ok.mp h
    cases hp
  | ackTx n =>
    refine iff_of_false ?_ (by simp)
    intro h
    obtain ⟨d₁, -, hp⟩ := Except.map_eq_ok.mp h
    cases hp

/-- **Refused commands** leave the driver as it was, in the whole run, exactly when at no submit the
flag is lost. -/
theorem refusals_atomic_iff (ops : List Op) :
    RefusalsAtomic ops ↔ ∀ d cmd, SubmitAt ops d cmd → ¬ d.FlagLost cmd := by
  constructor
  · rintro hatomic d cmd ⟨pre, calls, hpre, hr⟩ hlost
    have hsubmit := Driver.submit_overflow hlost.1 hlost.2.1
    have hstep := Driver.step_submit_iff.mpr ⟨rfl, hsubmit⟩
    have hsame := hatomic _ _ _ _ ⟨pre, .submit cmd, calls, hpre, hr, hstep⟩
    exact (Driver.submit_error_iff hsubmit).mp hsame hlost
  · rintro hkeeps d cmd e d' ⟨pre, op, calls, hpre, hr, hstep⟩
    obtain ⟨rfl, hsubmit⟩ := Driver.step_submit_iff.mp hstep
    exact (Driver.submit_error_iff hsubmit).mpr (hkeeps d cmd ⟨pre, calls, hpre, hr⟩)

end Runs

section

attribute [local instance] Target.host

/-- A factory reset that an early `+READY` ends; its bytes are never acknowledged. -/
def earlyReset : List Op := [.submit .factoryReset, .poll, .pushRx (utf8 "+READY\r\n"), .poll]

/-- The fifty-second factory reset is refused and sets the flag. -/
theorem not_refusals_atomic : ¬ ∀ ops, RefusalsAtomic ops := by
  intro h
  have hruns : (Component.run Driver.step .new (List.replicate 51 earlyReset).flatten).map
      (fun p => (p.2.state, p.2.tx.len, p.2.awaitingReadyAsOk)) = .ok (.idle, 510, false) := by
    decide +kernel
  obtain ⟨⟨calls, d⟩, hr, hd⟩ := Except.map_eq_ok.mp hruns
  obtain ⟨hidle, hlen, hflag⟩ : d.state = .idle ∧ d.tx.len = 510 ∧ d.awaitingReadyAsOk = false := by
    simpa using hd
  have hfull : txBuf < d.tx.len + (wire .factoryReset).length := by
    rw [hlen]
    decide
  have hstep := Driver.step_submit_iff.mpr ⟨rfl, Driver.submit_overflow hidle hfull⟩
  have hsame := h _ _ _ _ _ ⟨_, .submit .factoryReset, calls, List.prefix_rfl, hr, hstep⟩
  rw [Driver.withFlag_eq_iff, hflag] at hsame
  cases hsame

end

end Rylr998
