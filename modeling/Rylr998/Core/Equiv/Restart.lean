import Rylr998.Core.Equiv.Pairing

/-!
# An idle driver is a fresh driver

Once a caller that acknowledges every slice in full is back at `Idle`, nothing is left of the
commands it has sent but the bytes in `rx`: from there on the driver cannot be told from a fresh
one that has received these bytes (`no_leak`). What differs, the scratch line and the kind noted for
the last command, is written before it is read (`Driver.Alike`).
-/

namespace Rylr998

open Framing

/-- The drivers behave alike: they differ at most in the scratch line, and in the noted kind while
no command is being sent. -/
structure Driver.Alike (d e : Driver) : Prop where
  inv : d.Inv
  rx : e.rx = d.rx
  tx : e.tx = d.tx
  txInFlight : e.txInFlight = d.txInFlight
  mode : e.mode = d.mode
  pendingKind : d.state = .sendingTx → e.pendingKind = d.pendingKind

namespace Driver

variable {d e : Driver}

theorem Alike.state (h : d.Alike e) : e.state = d.state := congrArg Mode.state h.mode

theorem Alike.flag (h : d.Alike e) : e.awaitingReadyAsOk = d.awaitingReadyAsOk :=
  congrArg Mode.awaitingReadyAsOk h.mode

theorem Alike.inFlight_le (h : d.Alike e) : e.txInFlight ≤ e.tx.len := by
  rw [h.txInFlight, h.tx]
  exact h.inv.inFlight_le

theorem Alike.dropSent (h : d.Alike e) (n : Nat) : (e.dropSent n).tx = (d.dropSent n).tx ∧
    (e.dropSent n).txInFlight = (d.dropSent n).txInFlight := by
  simp only [Driver.dropSent, ackCount, h.tx, h.txInFlight, and_self]

/-- Alike drivers make the same step, and are alike afterwards. -/
theorem Alike.step [Target] (h : d.Alike e) {op : Op} {c : Call} {d' : Driver}
    (hd : d.step op = .ok (c, d')) : ∃ e', e.step op = .ok (c, e') ∧ d'.Alike e' := by
  have hinv' : d'.Inv := inv_step h.inv hd
  cases step_spec h.inv hd with
  | busy cmd hbusy =>
    have hbusy' : e.state ≠ .idle := by rwa [h.state]
    refine ⟨e, ?_, h⟩
    rw [Driver.step, submit_busy cmd hbusy']
    rfl
  | refuse cmd hidle hfull =>
    have hfull' : txBuf < e.tx.len + (wire cmd).length := by rwa [h.tx]
    refine ⟨_, by rw [Driver.step, submit_overflow (h.state.trans hidle) hfull']; rfl, ?_⟩
    exact ⟨hinv', h.rx, h.tx, h.txInFlight, Mode.ext h.state rfl, h.pendingKind⟩
  | accept cmd hfit hidle =>
    have hfit' : e.tx.len + (wire cmd).length ≤ txBuf := by rwa [h.tx]
    refine ⟨e.accept cmd hfit',
      by rw [Driver.step, submit_accept (h.state.trans hidle) hfit']; rfl, ?_⟩
    have htx : (e.accept cmd hfit').tx = (d.accept cmd hfit).tx := by
      ext1
      show e.tx.data ++ wire cmd = d.tx.data ++ wire cmd
      rw [h.tx]
    exact ⟨hinv', h.rx, htx, h.txInFlight, rfl, fun _ => rfl⟩
  | push bytes hfit =>
    have hfit' : e.rx.len + bytes.length ≤ rxBuf := by rwa [h.rx]
    refine ⟨{ e with rx := e.rx.append bytes hfit' },
      by rw [Driver.step, pushRx_of_le hfit']; rfl, ?_⟩
    have hrx : e.rx.append bytes hfit' = d.rx.append bytes hfit := by
      ext1
      show e.rx.data ++ bytes = d.rx.data ++ bytes
      rw [h.rx]
    exact ⟨hinv', hrx, h.tx, h.txInFlight, h.mode, h.pendingKind⟩
  | overflow bytes rx hfull hrx =>
    have hfull' : rxBuf < e.rx.len + bytes.length := by rwa [h.rx]
    obtain ⟨rx', hpush, hrx'⟩ := pushRx_of_lt hfull'
    have hsame : rx' = rx := by
      ext1
      rw [hrx', hrx, h.rx]
    refine ⟨{ e with rx := rx' }, by rw [Driver.step, hpush]; rfl, ?_⟩
    exact ⟨hinv', hsame, h.tx, h.txInFlight, h.mode, h.pendingKind⟩
  | needTx htx =>
    have htx' : e.txInFlight < e.tx.len := by rwa [h.txInFlight, h.tx]
    have hpoll := poll_needTx htx'
    rw [h.tx, h.txInFlight, ← h.tx] at hpoll
    refine ⟨{ e with txInFlight := e.tx.len }, ?_, ?_⟩
    · rw [← h.tx]
      exact step_poll_iff.mpr ⟨_, rfl, hpoll⟩
    · have hlen : e.tx.len = d.tx.len := by rw [h.tx]
      exact ⟨hinv', h.rx, h.tx, hlen, h.mode, h.pendingKind⟩
  | lines o _ htx hn hsame =>
    have htx' : e.tx.len ≤ e.txInFlight := by rwa [h.txInFlight, h.tx]
    rw [← h.mode, ← h.rx] at hn
    obtain ⟨e', hpoll, hmode, hrx, hsame'⟩ := poll_of_next htx' hn
    refine ⟨e', step_poll_iff.mpr ⟨_, rfl, hpoll⟩, hinv', HVec.ext hrx, ?_, ?_, hmode, ?_⟩
    · rw [hsame'.tx, hsame.tx, h.tx]
    · rw [hsame'.txInFlight, hsame.txInFlight, h.txInFlight]
    · intro hsend
      rw [hsame'.pendingKind, hsame.pendingKind]
      -- a command that is being sent was being sent before
      rw [h.mode, h.rx] at hn
      rcases next_mode hn with hm | hm
      · exact h.pendingKind ((congrArg Mode.state hm).symm.trans hsend)
      · cases (congrArg Mode.state hm).symm.trans hsend
  | ack n hnot =>
    obtain ⟨htx, hflight⟩ := h.dropSent n
    have hnot' : ¬ ((e.dropSent n).tx.data = [] ∧ (e.dropSent n).state = .sendingTx) := by
      rw [htx]
      show ¬ (_ ∧ e.state = .sendingTx)
      rwa [h.state]
    refine ⟨e.dropSent n, ?_, hinv', h.rx, htx, hflight, h.mode, h.pendingKind⟩
    rw [Driver.step, ackTx_eq e n h.inFlight_le, advance_of_not hnot']
    rfl
  | sent n kind hnil hsend hkind =>
    obtain ⟨htx, hflight⟩ := h.dropSent n
    have hnil' : (e.dropSent n).tx.data = [] := by rwa [htx]
    have hsend' : (e.dropSent n).state = .sendingTx := h.state.trans hsend
    have hkind' : (e.dropSent n).pendingKind = some kind := (h.pendingKind hsend).trans hkind
    refine ⟨{ e.dropSent n with state := .awaiting kind, pendingKind := none }, ?_, hinv', h.rx,
      htx, hflight, Mode.ext rfl h.flag, fun _ => rfl⟩
    rw [Driver.step, ackTx_eq e n h.inFlight_le, advance_of_pending hnil' hsend' hkind']
    rfl

/-- Alike drivers panic alike. -/
theorem Alike.step_error [Target] (h : d.Alike e) {op : Op} {f : Fault}
    (hd : d.step op = .error f) : e.step op = .error f := by
  obtain ⟨rfl, hpoll⟩ := Driver.step_error h.inv hd
  obtain ⟨htx, hn⟩ := poll_error_inv hpoll
  have htx' : e.tx.len ≤ e.txInFlight := by rwa [h.txInFlight, h.tx]
  rw [← h.mode, ← h.rx] at hn
  exact Except.map_eq_error.mpr (poll_of_next_error htx' hn)

/-- An idle driver with nothing to send is like a fresh one that has received what is in `rx`. -/
theorem alike_new (hinv : d.Inv) (htx : d.tx.data = []) (hmode : d.mode = .idle) :
    ∃ e, new.pushRx d.rx.data = .ok (.ok d.rx.len, e) ∧ d.Alike e := by
  have hfit : new.rx.len + d.rx.data.length ≤ rxBuf := by
    rw [show new.rx.len = 0 from rfl, Nat.zero_add]
    exact d.rx.length_le
  have hidle : d.state = .idle := congrArg Mode.state hmode
  refine ⟨_, pushRx_of_le hfit, hinv, rfl, HVec.ext htx.symm, ?_, hmode.symm, ?_⟩
  · rw [hinv.idle hidle, HVec.len, htx]
    rfl
  · rw [hidle]
    intro hsend
    cases hsend

end Driver

/-- **No state leaks.** A run in which every slice is acknowledged in full before the next call, and
that ends in `Idle`, leads to a driver that a caller cannot tell from a fresh one that has received
what is in `rx`. -/
theorem no_leak [Target] {ops : List Op} {calls : List Call} {d : Driver} (h : Runs ops calls d)
    (hp : Prompt calls) (hidle : d.state = .idle) (more : List Op) :
    (Component.run Driver.step d more).map Prod.fst =
      (Driver.new.pushRx d.rx.data >>= fun p =>
        Component.run Driver.step p.2 more).map Prod.fst := by
  obtain ⟨htx, hflag⟩ := (h.promptInv hp).1.idle hidle
  obtain ⟨e, hpush, halike⟩ := Driver.alike_new h.inv htx (Mode.ext hidle hflag)
  rw [hpush]
  refine Component.run_lockstep (R := Driver.Alike) ?_ halike more
  intro d e op hde
  exact ⟨fun f hf => hde.step_error hf, fun c d' hd => hde.step hd⟩

section

attribute [local instance] Target.host

/-- A ping whose reply has an event behind it, and what comes next. -/
theorem no_leak_ping :
    let d : Driver := { Driver.new.copyLine (utf8 "+OK") with
      rx := Driver.new.rx.append (utf8 "+READY\r\n") (by decide) }
    (Component.run Driver.step d [.poll, .submit .ping, .poll]).map Prod.fst =
      (Driver.new.pushRx d.rx.data >>= fun p =>
        Component.run Driver.step p.2 [.poll, .submit .ping, .poll]).map Prod.fst := by
  intro d
  have hrun : Runs [.submit .ping, .poll, .ackTx 4, .pushRx (utf8 "+OK\r\n+READY\r\n"), .poll]
      [.submit .ping (.ok ()), .poll (.needTx (wire .ping)), .ackTx 4,
        .pushRx (utf8 "+OK\r\n+READY\r\n") (.ok 13), .poll (.response .ok)] d := by
    unfold Runs
    decide +kernel
  refine no_leak hrun ?_ rfl _
  rintro pre bs post heq
  rcases pre with _ | ⟨_, _ | ⟨_, _ | ⟨_, _ | ⟨_, _ | ⟨_, pre⟩⟩⟩⟩⟩ <;> simp at heq
  obtain ⟨-, rfl, rfl⟩ := heq
  exact Or.inr ⟨4, _, by decide, rfl⟩

end

end Rylr998
