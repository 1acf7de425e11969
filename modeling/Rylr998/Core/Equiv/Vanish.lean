import Rylr998.Core.Equiv.Lines
import Rylr998.Core.Equiv.Runs

/-!
# Commands that vanish

`poll` frees the command slot before it parses the reply. A reply that `response_matches` accepts
and `parse_response` rejects therefore ends the command without a response. No other line does:
a command never vanishes exactly when every reply that a `poll` takes is well formed
(`never_vanishes_iff`).
-/

namespace Rylr998

open Framing

/-- In the run of `ops`, the call `c` of an operation leads from `d` to `d'`. -/
def StepAt [Target] (ops : List Op) (d : Driver) (c : Call) (d' : Driver) : Prop :=
  ∃ pre op calls, pre ++ [op] <+: ops ∧ Runs pre calls d ∧ d.step op = .ok (c, d')

/-- In the run of `ops`, `d` is polled. -/
def PollAt [Target] (ops : List Op) (d : Driver) : Prop :=
  ∃ pre calls, pre ++ [.poll] <+: ops ∧ Runs pre calls d

/-- A command that is in flight ends with a response only. -/
def NeverVanishes [Target] (ops : List Op) : Prop :=
  ∀ d c d', StepAt ops d c d' → d.state ≠ .idle → d'.state = .idle → ∃ r, c = .poll (.response r)

/-- `line` is the first line of `rx` that is not skipped, and it is taken for the reply to the
command in flight, which is of the kind `kind`. -/
def Driver.TakesReply [Target] (d : Driver) (kind : AwaitKind) (line : List UInt8) : Prop :=
  d.state = .awaiting kind ∧ line.length ≤ lineBufLength ∧ isEventLine line = false ∧
    Driver.responseMatches kind line = true ∧
    ¬ (d.awaitingReadyAsOk = true ∧ startsWith line (utf8 "+RESET") = true) ∧
    ∃ skipped rest, driverMachine.Skips d.mode skipped ∧ cr ∉ line ∧
      d.rx.data = crlf.unlines skipped ++ (line ++ cr :: lf :: rest)

/-- The reply that a `poll` takes, if any, is well formed. -/
def Driver.ReplyWellFormed [Target] (d : Driver) : Prop :=
  ∀ kind line, d.TakesReply kind line → ∃ r, IsReply kind line r

section Step

variable [Target] {d d' : Driver}

/-- A reply that is taken frees the slot, well formed or not. -/
theorem Driver.poll_of_takesReply (hinv : d.Inv) {kind : AwaitKind} {line : List UInt8}
    (h : d.TakesReply kind line) :
    ∃ d', d.poll = .ok (pollOf (replyOutput line), d') ∧ d'.state = .idle := by
  obtain ⟨hstate, hlen, hevent, hm, hreset, skipped, rest, hskip, hcr, hrx⟩ := h
  have htx := hinv.tx_le_of_awaiting hstate
  have hmatches : d.mode.matches line = true := Mode.matches_iff.mpr ⟨kind, hstate, hm⟩
  have hreact : react d.mode line = .take (replyOutput line) .idle :=
    react_of_matches hlen (by simpa using hreset) (by simp [hevent]) hmatches
  have hnext : driverMachine.next d.mode d.rx.data = .ok (replyOutput line, .idle, rest) := by
    rw [hrx]
    exact (LineMachine.next_skips hskip _).trans (next_of_take hcr hreact rest)
  obtain ⟨d', hpoll, hmode, -, -⟩ := Driver.poll_of_next htx hnext
  exact ⟨d', hpoll, congrArg Mode.state hmode⟩

/-- Only a `poll` that takes the awaited `+READY` or a reply makes a busy driver idle. -/
theorem Driver.frees_inv (hinv : d.Inv) {op : Op} {c : Call} (h : d.step op = .ok (c, d'))
    (hbusy : d.state ≠ .idle) (hidle : d'.state = .idle) :
    op = .poll ∧ (c = .poll (.response .ok) ∨
      ∃ kind line, d.TakesReply kind line ∧ c = .poll (pollOf (replyOutput line))) := by
  cases step_spec hinv h with
  | busy | push | overflow | needTx | ack => exact absurd hidle hbusy
  | refuse _ hd => exact absurd hd hbusy
  | accept | sent => cases hidle
  | lines o _ htx hn =>
    refine ⟨rfl, ?_⟩
    obtain ⟨skipped, hskip, ⟨-, hm, -⟩ | ⟨line, hcr, hl, hrx⟩⟩ := LineMachine.next_inv hn
    · exact absurd ((congrArg Mode.state hm).symm.trans hidle) hbusy
    have hne : d'.mode ≠ d.mode := by
      intro hm
      exact hbusy ((congrArg Mode.state hm).symm.trans hidle)
    have hs := react_spec d.mode line
    rw [show react d.mode line = .take o d'.mode from hl] at hs
    generalize hm : d'.mode = m at hs hne
    cases hs with
    | event | rejected => exact absurd rfl hne
    | ready => exact Or.inl rfl
    | reply kind hlen hstate hevent hmatch =>
      have hreset : ¬ (d.awaitingReadyAsOk = true ∧ startsWith line (utf8 "+RESET") = true) := by
        intro hr
        have hskips : react d.mode line = .skip := react_of_reset hlen (by simp [hr])
        cases hskips.symm.trans hl
      exact Or.inr ⟨kind, line, ⟨hstate, hlen, hevent, hmatch, hreset, skipped, _, hskip, hcr, hrx⟩,
        rfl⟩

end Step

/-- **No command vanishes** in a run exactly when each reply that one of its polls takes is well
formed. -/
theorem never_vanishes_iff [Target] (ops : List Op) :
    NeverVanishes ops ↔ ∀ d, PollAt ops d → d.ReplyWellFormed := by
  constructor
  · rintro hnever d ⟨pre, calls, hpre, hr⟩ kind line htakes
    by_contra hmal
    obtain ⟨d', hpoll, hidle⟩ := Driver.poll_of_takesReply hr.inv htakes
    have hstep : d.step .poll = .ok (.poll .idle, d') := by
      rw [replyOutput_eq_none htakes.2.2.2.1 hmal] at hpoll
      exact Driver.step_poll_iff.mpr ⟨.idle, rfl, hpoll⟩
    have hbusy : d.state ≠ .idle := by
      rw [htakes.1]
      simp
    obtain ⟨r, hc⟩ := hnever d _ d' ⟨pre, .poll, calls, hpre, hr, hstep⟩ hbusy hidle
    cases hc
  · rintro hwell d c d' ⟨pre, op, calls, hpre, hr, hstep⟩ hbusy hidle
    obtain ⟨rfl, rfl | ⟨kind, line, htakes, rfl⟩⟩ := Driver.frees_inv hr.inv hstep hbusy hidle
    · exact ⟨.ok, rfl⟩
    · obtain ⟨r, hreply⟩ := hwell d ⟨pre, calls, hpre, hr⟩ kind line htakes
      refine ⟨r, ?_⟩
      rw [replyOutput_of_isReply hreply]
      rfl

section

attribute [local instance] Target.host

/-- A driver that waits for `+OK` and has received `bytes`. -/
def Driver.awaitingAck (bytes : List UInt8) (h : bytes.length ≤ rxBuf) : Driver :=
  { Driver.new with rx := ⟨bytes, h⟩, state := .awaiting .ack }

@[simp] theorem Driver.awaitingAck_state (bytes : List UInt8) (h : bytes.length ≤ rxBuf) :
    (Driver.awaitingAck bytes h).state = .awaiting .ack := rfl

/-- The reply `+ERR=999` ends a ping without a response. -/
theorem not_never_vanishes_ping : ¬ NeverVanishes
    [.submit .ping, .poll, .ackTx 4, .pushRx (utf8 "+ERR=999\r\n"), .poll] := by
  intro hnever
  have hrun : Runs [.submit .ping, .poll, .ackTx 4, .pushRx (utf8 "+ERR=999\r\n")]
      [.submit .ping (.ok ()), .poll (.needTx (wire .ping)), .ackTx 4,
        .pushRx (utf8 "+ERR=999\r\n") (.ok 10)]
      (.awaitingAck (utf8 "+ERR=999\r\n") (by decide)) := by
    unfold Runs
    decide +kernel
  have hstep : (Driver.awaitingAck (utf8 "+ERR=999\r\n") (by decide)).step .poll =
      .ok (.poll .idle, Driver.new.copyLine (utf8 "+ERR=999")) := by
    decide +kernel
  obtain ⟨r, hc⟩ := hnever _ _ _ ⟨_, .poll, _, by simp, hrun, hstep⟩ (by simp) rfl
  cases hc

end

end Rylr998
