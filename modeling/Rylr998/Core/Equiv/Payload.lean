import Rylr998.Core.Equiv.Lines
import Rylr998.Core.Equiv.Runs

/-!
# Payloads of `+RCV` lines

A `+RCV` line carries its payload with a length prefix, but the driver cuts its input into lines at
the first `\r`. The two agree, and the payload comes through unchanged, exactly when it contains no
`\r` (`payload_transparent_iff`); commas, line feeds and bytes that are not UTF-8 do no harm.
-/

namespace Rylr998

open Framing

/-- Pushed into a fresh driver, the line of a message is returned as its event, and nothing is left
in `rx`. -/
def Transparent [Target] (fromAddr : UInt16) (data : List UInt8) (rssi snr : Int16) : Prop :=
  ∃ d, Runs [.pushRx (rcvLine fromAddr data rssi snr ++ [cr, lf]), .poll]
      [.pushRx (rcvLine fromAddr data rssi snr ++ [cr, lf])
          (.ok (rcvLine fromAddr data rssi snr ++ [cr, lf]).length),
        .poll (.event (.recv fromAddr data rssi snr))] d ∧
    d.rx.data = []

/-- A push that fits into a fresh driver, and the poll after it. -/
theorem runs_pushRx_poll_iff [Target] {bytes : List UInt8} (hfit : bytes.length ≤ rxBuf)
    {c₁ c₂ : Call} {d : Driver} :
    Runs [.pushRx bytes, .poll] [c₁, c₂] d ↔
      c₁ = .pushRx bytes (.ok bytes.length) ∧
        Driver.step { Driver.new with rx := ⟨bytes, hfit⟩ } .poll = .ok (c₂, d) := by
  have hpush : Driver.step .new (.pushRx bytes) =
      .ok (.pushRx bytes (.ok bytes.length), { Driver.new with rx := ⟨bytes, hfit⟩ }) := by
    have hroom : Driver.new.rx.len + bytes.length ≤ rxBuf := by
      simpa [Driver.new, HVec.len, HVec.new] using hfit
    rw [Driver.step, Driver.pushRx_of_le hroom]
    rfl
  rw [Runs, Component.run_cons hpush]
  cases hs : Driver.step { Driver.new with rx := ⟨bytes, hfit⟩ } .poll with
  | error f => rw [Component.run_cons_error hs]; simp [Except.map]
  | ok q =>
    rw [Component.run_cons hs]
    simp [Except.map, eq_comm, Prod.ext_iff]
    tauto

/-- The payload comes through exactly when it contains no `\r`. -/
theorem payload_transparent_iff [Target] (fromAddr : UInt16) {data : List UInt8} (rssi snr : Int16)
    (hdata : data.length ≤ 240) : Transparent fromAddr data rssi snr ↔ cr ∉ data := by
  have hlen := length_rcvLine_le fromAddr data rssi snr hdata
  have hfit : (rcvLine fromAddr data rssi snr ++ [cr, lf]).length ≤ rxBuf := by
    rw [List.length_append, rxBuf]
    simp only [List.length_cons, List.length_nil]
    omega
  have hrcv := isRcv_rcvLine fromAddr data rssi snr (by have := usizeMax_ge; omega)
  rw [← cr_mem_rcvLine fromAddr data rssi snr]
  unfold Transparent
  generalize rcvLine fromAddr data rssi snr = line at hlen hfit hrcv ⊢
  simp only [runs_pushRx_poll_iff hfit, true_and]
  constructor
  · rintro ⟨d, hstep, hrx⟩
    obtain ⟨p, hp, hpoll⟩ := Driver.step_poll_iff.mp hstep
    cases hp
    rcases Driver.poll_inv hpoll with ⟨htx, -⟩ | ⟨-, o, ho, hn, -⟩
    · exact absurd htx (Nat.lt_irrefl 0)
    obtain ⟨skipped, hskip, ⟨rfl, -⟩ | ⟨l, hl, -, hline⟩⟩ := LineMachine.next_inv hn
    · cases ho
    -- nothing is skipped, and the first line found is the whole line
    obtain rfl := skips_eq_nil rfl hskip
    have hline' : line ++ [cr, lf] = l ++ [cr, lf] := by simpa [hrx] using hline
    rwa [List.append_cancel_right hline']
  · intro hcr
    have hn : driverMachine.next .idle (line ++ cr :: lf :: []) =
        .ok (some (.event _), .idle, []) :=
      next_of_take hcr (react_of_isRcv hrcv (by unfold lineBufLength; omega)) []
    obtain ⟨d, hpoll, -, hrx, -⟩ :=
      Driver.poll_of_next (d := { Driver.new with rx := ⟨_, hfit⟩ }) (Nat.le_refl 0) hn
    exact ⟨d, Driver.step_poll_iff.mpr ⟨_, rfl, hpoll⟩, hrx⟩

section

attribute [local instance] Target.host

/-- The message `HELLO` comes through. -/
theorem payload_transparent_hello : Transparent 120 (utf8 "HELLO") (-99) 40 :=
  (payload_transparent_iff 120 (-99) 40 (by decide)).mpr (by decide)

/-- A payload that is one `\r` does not come through. -/
theorem payload_not_transparent : ¬ ∀ fromAddr data rssi snr, data.length ≤ 240 →
    Transparent fromAddr data rssi snr := by
  intro h
  obtain ⟨d, hrun, -⟩ := h 1 [cr] 0 0 (by decide)
  have hcalls : (Component.run Driver.step .new
      [.pushRx (rcvLine 1 [cr] 0 0 ++ [cr, lf]), .poll]).map Prod.fst ≠
      .ok [.pushRx (rcvLine 1 [cr] 0 0 ++ [cr, lf])
        (.ok (rcvLine 1 [cr] 0 0 ++ [cr, lf]).length), .poll (.event (.recv 1 [cr] 0 0))] := by
    decide +kernel
  exact hcalls (congrArg (Except.map Prod.fst) hrun)

end

end Rylr998
