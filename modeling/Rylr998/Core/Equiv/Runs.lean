import Rylr998.Core.Runs
import Rylr998.Core.Equiv.Driver

/-!
# Invariants of the runs of a driver

`step_spec` says once what a call can do (`StepSpec`). From it, `Driver.Inv` holds in every
reachable state (`Reachable.inv`), and whenever a command is in flight it is the one accepted last:
its kind and the reset flag are those of the driver (`Runs.serves`).
-/

namespace Rylr998

open Framing

namespace Driver

/-- What a call can do to a driver. -/
inductive StepSpec [Target] (d : Driver) : Op → Call → Driver → Prop
  | busy (cmd : Command) : d.state ≠ .idle → StepSpec d (.submit cmd) (.submit cmd (.error .busy)) d
  | refuse (cmd : Command) : d.state = .idle → txBuf < d.tx.len + (wire cmd).length →
    StepSpec d (.submit cmd) (.submit cmd (.error .txOverflow))
      { d with awaitingReadyAsOk := decide (cmd = .factoryReset) }
  | accept (cmd : Command) (hfit : d.tx.len + (wire cmd).length ≤ txBuf) : d.state = .idle →
    StepSpec d (.submit cmd) (.submit cmd (.ok ())) (d.accept cmd hfit)
  | push (bytes : List UInt8) (hfit : d.rx.len + bytes.length ≤ rxBuf) :
    StepSpec d (.pushRx bytes) (.pushRx bytes (.ok bytes.length))
      { d with rx := d.rx.append bytes hfit }
  | overflow (bytes : List UInt8) (rx : HVec UInt8 rxBuf) : rxBuf < d.rx.len + bytes.length →
    rx.data = d.rx.data ++ bytes.take (rxBuf - d.rx.len) →
    StepSpec d (.pushRx bytes) (.pushRx bytes (.error .rxOverflow)) { d with rx }
  | needTx : d.txInFlight < d.tx.len →
    StepSpec d .poll (.poll (.needTx (d.tx.data.drop d.txInFlight)))
      { d with txInFlight := d.tx.len }
  | lines (o : Option Output) (d' : Driver) : d.tx.len ≤ d.txInFlight →
    driverMachine.next d.mode d.rx.data = .ok (o, d'.mode, d'.rx.data) → SameTx d d' →
    StepSpec d .poll (.poll (pollOf o)) d'
  | ack (n : Nat) : ¬ ((d.dropSent n).tx.data = [] ∧ d.state = .sendingTx) →
    StepSpec d (.ackTx n) (.ackTx n) (d.dropSent n)
  | sent (n : Nat) (kind : AwaitKind) : (d.dropSent n).tx.data = [] → d.state = .sendingTx →
    d.pendingKind = some kind →
    StepSpec d (.ackTx n) (.ackTx n)
      { d.dropSent n with state := .awaiting kind, pendingKind := none }

/-- What holds between the buffers and the state of the command slot in every reachable state. -/
structure Inv (d : Driver) : Prop where
  /-- Only queued bytes are in flight. -/
  inFlight_le : d.txInFlight ≤ d.tx.len
  /-- An idle driver has nothing to send. -/
  idle : d.state = .idle → d.txInFlight = d.tx.len
  /-- A command being sent has bytes left and its kind noted. -/
  sendingTx : d.state = .sendingTx → d.tx.data ≠ [] ∧ d.pendingKind ≠ none
  /-- A command that waits for its reply is sent. -/
  awaiting : ∀ kind, d.state = .awaiting kind → d.tx.data = [] ∧ d.pendingKind = none

theorem Inv.tx_le_of_awaiting {d : Driver} (hinv : d.Inv) {kind : AwaitKind}
    (h : d.state = .awaiting kind) : d.tx.len ≤ d.txInFlight := by
  rw [HVec.len, (hinv.awaiting kind h).1]
  exact Nat.zero_le _

theorem step_spec [Target] {d d' : Driver} {op : Op} {c : Call} (hinv : d.Inv)
    (h : d.step op = .ok (c, d')) : StepSpec d op c d' := by
  cases op with
  | submit cmd =>
    by_cases hidle : d.state = .idle
    · by_cases hfit : d.tx.len + (wire cmd).length ≤ txBuf
      · rw [step, submit_accept hidle hfit] at h
        cases h
        exact .accept cmd hfit hidle
      · rw [step, submit_overflow hidle (by omega)] at h
        cases h
        exact .refuse cmd hidle (by omega)
    · rw [step, submit_busy cmd hidle] at h
      cases h
      exact .busy cmd hidle
  | pushRx bytes =>
    by_cases hfit : d.rx.len + bytes.length ≤ rxBuf
    · rw [step, pushRx_of_le hfit] at h
      cases h
      exact .push bytes hfit
    · rw [Nat.not_le] at hfit
      obtain ⟨rx, hpush, hrx⟩ := pushRx_of_lt hfit
      rw [step, hpush] at h
      cases h
      exact .overflow bytes rx hfit hrx
  | poll =>
    cases hp : d.poll with
    | error f => rw [step, hp] at h; cases h
    | ok q =>
      obtain ⟨p, d₁⟩ := q
      rw [step, hp] at h
      cases h
      rcases poll_inv hp with ⟨htx, rfl, rfl⟩ | ⟨htx, o, rfl, hn, hsame⟩
      · exact .needTx htx
      · exact .lines o _ htx hn hsame
  | ackTx n =>
    rw [step, ackTx_eq d n hinv.inFlight_le] at h
    cases h
    by_cases hsent : (d.dropSent n).tx.data = [] ∧ d.state = .sendingTx
    · obtain ⟨kind, hkind⟩ := Option.ne_none_iff_exists'.mp (hinv.sendingTx hsent.2).2
      rw [advance_of_pending (d := d.dropSent n) hsent.1 hsent.2 hkind]
      exact .sent n kind hsent.1 hsent.2 hkind
    · rw [advance_of_not (d := d.dropSent n) hsent]
      exact .ack n hsent

/-- Only `poll` can panic. -/
theorem step_error [Target] {d : Driver} {op : Op} {f : Fault} (hinv : d.Inv)
    (h : d.step op = .error f) : op = .poll ∧ d.poll = .error f := by
  cases op with
  | submit cmd =>
    have hsubmit : d.submit cmd = .error f := Except.map_eq_error.mp h
    by_cases hidle : d.state = .idle
    · by_cases hfit : d.tx.len + (wire cmd).length ≤ txBuf
      · cases (submit_accept hidle hfit).symm.trans hsubmit
      · cases (submit_overflow hidle (by omega)).symm.trans hsubmit
    · cases (submit_busy cmd hidle).symm.trans hsubmit
  | pushRx bytes =>
    have hpush : d.pushRx bytes = .error f := Except.map_eq_error.mp h
    rcases Nat.lt_or_ge rxBuf (d.rx.len + bytes.length) with hfull | hfit
    · obtain ⟨rx, hover, -⟩ := pushRx_of_lt hfull
      cases hover.symm.trans hpush
    · cases (pushRx_of_le hfit).symm.trans hpush
  | poll => exact ⟨rfl, Except.map_eq_error.mp h⟩
  | ackTx n =>
    have hack : d.ackTx n = .error f := Except.map_eq_error.mp h
    cases (ackTx_eq d n hinv.inFlight_le).symm.trans hack

/-- Bytes enter `rx` at the end, in a `pushRx`, and leave it at the front. -/
theorem step_rx [Target] {d d' : Driver} {op : Op} {c : Call} (hinv : d.Inv)
    (h : d.step op = .ok (c, d')) :
    d'.rx.data = d.rx.data ++ op.bytes.take (rxBuf - d.rx.len) ∨
      op.bytes = [] ∧ ∃ k, k ≤ d.rx.len ∧ d'.rx.data = d.rx.data.drop k := by
  cases step_spec hinv h with
  | busy | refuse | accept | needTx | ack | sent => exact Or.inr ⟨rfl, 0, Nat.zero_le _, rfl⟩
  | push bytes hfit =>
    left
    rw [Op.bytes, List.take_of_length_le (by omega)]
    rfl
  | overflow bytes rx _ hrx => exact Or.inl hrx
  | lines o _ htx hn =>
    refine Or.inr ⟨rfl, ?_⟩
    obtain ⟨skipped, -, ⟨-, -, hrx, -⟩ | ⟨l, -, -, hrx⟩⟩ := LineMachine.next_inv hn
    · refine ⟨(crlf.unlines skipped).length, ?_, ?_⟩
      · rw [HVec.len, hrx]
        exact (List.prefix_append _ _).length_le
      · rw [hrx]
        exact List.drop_left.symm
    · have hsplit : d.rx.data = (crlf.unlines skipped ++ (l ++ [cr, lf])) ++ d'.rx.data := by
        rw [hrx]
        simp
      refine ⟨(crlf.unlines skipped ++ (l ++ [cr, lf])).length, ?_, ?_⟩
      · rw [HVec.len, hsplit]
        exact (List.prefix_append _ _).length_le
      · rw [hsplit]
        exact List.drop_left.symm

/-! ### The invariant -/

theorem dropSent_len {d : Driver} (hinv : d.Inv) (n : Nat) :
    (d.dropSent n).tx.len + d.ackCount n = d.tx.len ∧
      (d.dropSent n).txInFlight + d.ackCount n = d.txInFlight := by
  have hk : d.ackCount n ≤ d.txInFlight := Nat.min_le_right _ _
  have hle := hinv.inFlight_le
  simp only [dropSent, HVec.len, HVec.data_dropFront, List.length_drop] at hle ⊢
  omega

theorem inv_new : (new).Inv where
  inFlight_le := Nat.le_refl _
  idle _ := rfl
  sendingTx h := by cases h
  awaiting _ h := by cases h

theorem inv_step [Target] {d d' : Driver} {op : Op} {c : Call} (hinv : d.Inv)
    (h : d.step op = .ok (c, d')) : d'.Inv := by
  cases step_spec hinv h with
  | busy => exact hinv
  | refuse => exact ⟨hinv.inFlight_le, hinv.idle, hinv.sendingTx, hinv.awaiting⟩
  | push | overflow => exact ⟨hinv.inFlight_le, hinv.idle, hinv.sendingTx, hinv.awaiting⟩
  | accept cmd hfit hidle =>
    have hlen : (d.accept cmd hfit).txInFlight ≤ (d.accept cmd hfit).tx.len := by
      have hle := hinv.inFlight_le
      simp only [accept, HVec.len, HVec.data_append, List.length_append] at hle ⊢
      omega
    have htx : (d.accept cmd hfit).tx.data ≠ [] :=
      List.append_ne_nil_of_right_ne_nil _ (wire_ne_nil cmd)
    exact ⟨hlen, nofun, fun _ => ⟨htx, nofun⟩, nofun⟩
  | needTx => exact ⟨Nat.le_refl _, fun _ => rfl, hinv.sendingTx, hinv.awaiting⟩
  | lines o _ htx hn hsame =>
    -- the lines change the state to idle at most, and `tx` is written out before they are read
    have hstate : d'.state = d.state ∨ d'.state = .idle :=
      (next_mode hn).imp (congrArg Mode.state) (congrArg Mode.state)
    refine ⟨?_, ?_, ?_, ?_⟩
    · rw [hsame.tx, hsame.txInFlight]
      exact hinv.inFlight_le
    · rw [hsame.tx, hsame.txInFlight]
      exact fun _ => Nat.le_antisymm hinv.inFlight_le htx
    · rw [hsame.tx, hsame.pendingKind]
      rcases hstate with hs | hs <;> rw [hs]
      · exact hinv.sendingTx
      · nofun
    · rw [hsame.tx, hsame.pendingKind]
      rcases hstate with hs | hs <;> rw [hs]
      · exact hinv.awaiting
      · nofun
  | ack n hnot =>
    -- the state stays, and as many bytes leave the counter as leave `tx`
    have hlen := dropSent_len hinv n
    refine ⟨?_, ?_, ?_, ?_⟩
    · have hle := hinv.inFlight_le
      omega
    · intro hidle
      have heq := hinv.idle hidle
      omega
    · intro hsend
      have hne : (d.dropSent n).tx.data ≠ [] := fun htx => hnot ⟨htx, hsend⟩
      exact ⟨hne, (hinv.sendingTx hsend).2⟩
    · intro kind hk
      obtain ⟨htx, hpending⟩ := hinv.awaiting kind hk
      have hnil : (d.dropSent n).tx.data = [] := by
        rw [dropSent, HVec.data_dropFront, htx, List.drop_nil]
      exact ⟨hnil, hpending⟩
  | sent n kind htx =>
    have hlen := dropSent_len hinv n
    have hle := hinv.inFlight_le
    have hsent : (d.dropSent n).txInFlight ≤ (d.dropSent n).tx.len := by omega
    exact ⟨hsent, nofun, nofun, fun _ _ => ⟨htx, rfl⟩⟩

end Driver

theorem Runs.inv [Target] {ops : List Op} {calls : List Call} {d : Driver} (h : Runs ops calls d) :
    d.Inv :=
  Component.run_invariant (fun _ _ _ _ hinv hs => Driver.inv_step hinv hs) Driver.inv_new h

theorem Reachable.inv [Target] {d : Driver} (h : Reachable d) : d.Inv := by
  obtain ⟨_, _, hr⟩ := h
  exact hr.inv

/-! ### The command in flight -/

namespace Driver

/-- The driver treats `cmd` as the command in flight. -/
structure Serves (d : Driver) (cmd : Command) : Prop where
  flag : d.awaitingReadyAsOk = decide (cmd = .factoryReset)
  pending : d.state = .sendingTx → d.pendingKind = some cmd.awaitKind
  awaiting : ∀ kind, d.state = .awaiting kind → kind = cmd.awaitKind

/-- A command in flight is the one accepted last, `last`. -/
def ServesLast (d : Driver) (last : Option Command) : Prop :=
  d.state ≠ .idle → ∃ cmd, last = some cmd ∧ d.Serves cmd

theorem servesLast_step [Target] {d d' : Driver} {op : Op} {c : Call} {last : Option Command}
    (hinv : d.Inv) (hserves : d.ServesLast last) (h : d.step op = .ok (c, d')) :
    d'.ServesLast (c.accepted?.or last) := by
  -- no new command: what is served stays served
  have hkeep (hc : c.accepted? = none) (hs : ∀ cmd, d.Serves cmd → d'.Serves cmd)
      (hne : d'.state ≠ .idle → d.state ≠ .idle) : d'.ServesLast (c.accepted?.or last) := by
    intro hd'
    obtain ⟨cmd, hlast, hcmd⟩ := hserves (hne hd')
    exact ⟨cmd, by rw [hc, Option.none_or, hlast], hs cmd hcmd⟩
  cases step_spec hinv h with
  | busy => exact hkeep rfl (fun _ hs => hs) id
  | refuse _ hidle => exact fun hd' => absurd hidle hd'
  | accept cmd => exact fun _ => ⟨cmd, rfl, rfl, fun _ => rfl, nofun⟩
  | push | overflow | needTx =>
    exact hkeep rfl (fun _ hs => ⟨hs.flag, hs.pending, hs.awaiting⟩) id
  | lines o _ htx hn hsame =>
    have hstate : d'.mode = d.mode ∨ d'.mode = .idle := next_mode hn
    -- the lines leave the command slot alone or free it
    rcases hstate with hs | hs
    · have hst : d'.state = d.state := congrArg Mode.state hs
      have hflag : d'.awaitingReadyAsOk = d.awaitingReadyAsOk := congrArg Mode.awaitingReadyAsOk hs
      apply hkeep rfl
      · intro cmd hc
        refine ⟨hflag.trans hc.flag, ?_, ?_⟩
        · rw [hst, hsame.pendingKind]
          exact hc.pending
        · rw [hst]
          exact hc.awaiting
      · rw [hst]
        exact id
    · exact fun hd' => absurd (congrArg Mode.state hs) hd'
  | ack => exact hkeep rfl (fun _ hs => ⟨hs.flag, hs.pending, hs.awaiting⟩) id
  | sent n kind htx hstate hkind =>
    apply hkeep rfl
    · intro cmd hs
      refine ⟨hs.flag, nofun, ?_⟩
      intro k hk
      cases hk
      exact Option.some.inj (hkind.symm.trans (hs.pending hstate))
    · intro _ hidle
      cases hstate.symm.trans hidle

end Driver

/-- As long as a command is in flight, the driver treats it as that. -/
theorem Driver.serves_step [Target] {d d' : Driver} {op : Op} {c : Call} {cmd : Command}
    (hinv : d.Inv) (hs : d.Serves cmd) (h : d.step op = .ok (c, d')) (hc : c.accepted? = none)
    (hne : d'.state ≠ .idle) : d'.Serves cmd := by
  obtain ⟨cmd', hcmd', hs'⟩ :=
    servesLast_step hinv (fun _ => ⟨cmd, rfl, hs⟩ : d.ServesLast (some cmd)) h hne
  rw [hc] at hcmd'
  cases hcmd'
  exact hs'

theorem accepted_concat_getLast? (calls : List Call) (c : Call) :
    (accepted (calls ++ [c])).getLast? = c.accepted?.or (accepted calls).getLast? := by
  rw [accepted_append, accepted_singleton, List.getLast?_append]
  cases c.accepted? <;> rfl

/-- Whenever a command is in flight, it is the one accepted last. -/
theorem Runs.serves [Target] {ops : List Op} {calls : List Call} {d : Driver}
    (h : Runs ops calls d) : d.ServesLast (accepted calls).getLast? := by
  refine Component.run_induction (P := fun _ calls d => d.ServesLast (accepted calls).getLast?)
    (fun h => absurd rfl h) ?_ ops calls d h
  intro ops calls d op c d' hr hs hstep
  rw [accepted_concat_getLast?]
  exact Driver.servesLast_step (Runs.inv hr) hs hstep

end Rylr998
