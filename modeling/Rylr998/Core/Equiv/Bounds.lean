import Rylr998.Core.Equiv.Runs

/-!
# Accesses to the driver's buffers

Only `poll` can panic on the driver's own buffers, and it does so exactly when the line it has
reached is longer than `line_buf` (`LongLineDue`): `rx` holds 512 bytes and `line_buf` 288. A run
without such a line makes no access out of bounds (`buffers_safe_iff`).
-/

namespace Rylr998

open Framing

/-- `poll` has nothing to send and reaches, behind `+RESET` lines that it skips, a complete line
that does not fit `line_buf`. -/
def LongLineDue (d : Driver) : Prop :=
  d.tx.len ≤ d.txInFlight ∧ ∃ skipped l r,
    d.rx.data = crlf.unlines skipped ++ (l ++ cr :: lf :: r) ∧
    (∀ s ∈ skipped, cr ∉ s ∧ s.length ≤ lineBufLength ∧ d.awaitingReadyAsOk = true ∧
      startsWith s (utf8 "+RESET") = true) ∧
    cr ∉ l ∧ lineBufLength < l.length

theorem react_buffers_iff [Target] {m : Mode} {l : List UInt8} {p : Panic} :
    react m l = .fault (.buffers p) ↔ p = .outOfBounds ∧ lineBufLength < l.length := by
  constructor
  · intro h
    have hs := react_spec m l
    rw [h] at hs
    cases hs with
    | long hlong => exact ⟨rfl, hlong⟩
  · rintro ⟨rfl, hlong⟩
    exact react_of_long hlong

/-- `poll` panics on the buffers exactly when a long line is due. -/
theorem poll_buffers_iff [Target] {d : Driver} :
    (∃ p, d.poll = .error (.buffers p)) ↔ LongLineDue d := by
  constructor
  · rintro ⟨p, h⟩
    obtain ⟨htx, hn⟩ := Driver.poll_error_inv h
    obtain ⟨skipped, l, r, hskip, hl, hr, hrx⟩ := LineMachine.next_error_iff.mp hn
    exact ⟨htx, skipped, l, r, hrx, skips_iff.mp hskip, hl, (react_buffers_iff.mp hr).2⟩
  · rintro ⟨htx, skipped, l, r, hrx, hskip, hl, hlong⟩
    refine ⟨.outOfBounds, Driver.poll_of_next_error htx (LineMachine.next_error_iff.mpr ?_)⟩
    exact ⟨skipped, l, r, skips_iff.mpr hskip, hl, react_buffers_iff.mpr ⟨rfl, hlong⟩, hrx⟩

/-- A run makes no access out of bounds exactly when no `poll` reaches a long line. -/
theorem buffers_safe_iff [Target] (ops : List Op) :
    (∀ p, Component.run Driver.step .new ops ≠ .error (.buffers p)) ↔
      ∀ pre calls d, pre ++ [.poll] <+: ops → Runs pre calls d → ¬ LongLineDue d := by
  constructor
  · rintro hsafe pre calls d ⟨post, rfl⟩ hrun hlong
    obtain ⟨p, hp⟩ := poll_buffers_iff.mpr hlong
    refine hsafe p (Component.run_error_iff.mpr ⟨pre, .poll, post, calls, d, by simp, hrun, ?_⟩)
    rw [Driver.step, hp]
    rfl
  · intro hshort p hp
    obtain ⟨pre, op, post, calls, d, rfl, hrun, hstep⟩ := Component.run_error_iff.mp hp
    obtain ⟨rfl, hpoll⟩ := Driver.step_error (Runs.inv hrun) hstep
    exact hshort pre calls d ⟨post, by simp⟩ hrun (poll_buffers_iff.mp ⟨p, hpoll⟩)

section

attribute [local instance] Target.host

/-- A noise line of 289 bytes makes `poll` panic. -/
theorem buffers_unsafe : ¬ ∀ ops p, Component.run Driver.step .new ops ≠ .error (.buffers p) := by
  intro h
  apply h [.pushRx (List.replicate 289 120 ++ [cr, lf]), .poll] .outOfBounds
  decide +kernel

end

end Rylr998
