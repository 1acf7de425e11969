import Rylr998.Core.Equiv.Lines
import Rylr998.Core.Equiv.Runs

/-!
# Responses and the commands they answer

When a caller acknowledges every slice in full before it goes on (`Prompt`), each response answers
the command accepted last, that command has no earlier response, and the response has the form that
belongs to it (`response_pairing`). The kind of the awaited reply goes through four places of the
driver; `answeredBy_of_react` is where they meet.
-/

namespace Rylr998

open Framing

/-- The response is an error or of the form that belongs to the command: `Response.ok` for setters,
ping, send and factory reset, the value asked for otherwise. -/
def Command.answeredBy : Command → Response → Bool
  | _, .err _ => true
  | .getAddress, .address _ => true
  | .getNetworkId, .networkId _ => true
  | .getBand, .band _ => true
  | .getCpin, .cpin _ => true
  | .getParameters, .parameters _ => true
  | .getCrfop, .crfop _ => true
  | .getUid, .uid _ => true
  | .getVersion, .version _ => true
  | .ping, .ok => true
  | .setAddress _, .ok => true
  | .setNetworkId _, .ok => true
  | .setBand _, .ok => true
  | .setCpin _, .ok => true
  | .setParameters _, .ok => true
  | .factoryReset, .ok => true
  | .send _ _, .ok => true
  | _, _ => false

/-- Every slice handed out is acknowledged in full by the next call. -/
def Prompt (calls : List Call) : Prop :=
  ∀ pre bs post, calls = pre ++ .poll (.needTx bs) :: post →
    post = [] ∨ ∃ n rest, bs.length ≤ n ∧ post = .ackTx n :: rest

/-- The call neither gets a command accepted nor returns a response. -/
def Call.Quiet (c : Call) : Prop := c.accepted? = none ∧ ∀ r, c ≠ .poll (.response r)

/-- `cmd` is accepted last, and there is no response after it. -/
def Unanswered (calls : List Call) (cmd : Command) : Prop :=
  ∃ pre mid, calls = pre ++ .submit cmd (.ok ()) :: mid ∧ ∀ c ∈ mid, c.Quiet

theorem Prompt.of_append {cs ds : List Call} (h : Prompt (cs ++ ds)) : Prompt cs := by
  rintro pre bs post rfl
  rcases h pre bs (post ++ ds) (by simp) with hnil | ⟨n, rest, hn, hpost⟩
  · exact Or.inl (List.append_eq_nil_iff.mp hnil).1
  · cases post with
    | nil => exact Or.inl rfl
    | cons c post =>
      obtain ⟨rfl, -⟩ := List.cons.inj hpost
      exact Or.inr ⟨n, post, hn, rfl⟩

/-- The call after a slice is its acknowledgement. -/
theorem Prompt.ack_of_last {calls : List Call} {c : Call} {bs : List UInt8}
    (h : Prompt (calls ++ [c])) (hlast : calls.getLast? = some (.poll (.needTx bs))) :
    ∃ n, bs.length ≤ n ∧ c = .ackTx n := by
  obtain ⟨pre, rfl⟩ := List.getLast?_eq_some_iff.mp hlast
  rcases h pre bs [c] (by simp) with hnil | ⟨n, rest, hn, hpost⟩
  · cases hnil
  · exact ⟨n, hn, (List.cons.inj hpost).1⟩

theorem Unanswered.append {calls : List Call} {cmd : Command} (h : Unanswered calls cmd) {c : Call}
    (hc : c.Quiet) : Unanswered (calls ++ [c]) cmd := by
  obtain ⟨pre, mid, rfl, hmid⟩ := h
  refine ⟨pre, mid ++ [c], by simp, fun x hx => ?_⟩
  rcases List.mem_append.mp hx with hx | hx
  · exact hmid x hx
  · rwa [List.mem_singleton.mp hx]

theorem Call.quiet_of_accepted {c : Call} (ha : c.accepted? = none) (hp : ∀ p, c ≠ .poll p) :
    c.Quiet :=
  ⟨ha, fun r => hp (.response r)⟩

/-! ### The form of a response -/

theorem answeredBy_err (cmd : Command) (code : UInt8) : cmd.answeredBy (.err code) = true := by
  cases cmd <;> rfl

theorem answeredBy_ok {cmd : Command} (h : cmd.awaitKind = .ack) : cmd.answeredBy .ok = true := by
  cases cmd <;> first | rfl | cases h

/-- A well-formed reply to the command answers it. -/
theorem answeredBy_of_isReply {cmd : Command} {line : List UInt8} {r : Response}
    (h : IsReply cmd.awaitKind line r) : cmd.answeredBy r = true := by
  generalize hkind : cmd.awaitKind = kind at h
  cases h with
  | ok => exact answeredBy_ok hkind
  | err => exact answeredBy_err cmd _
  | @query key t r hvalue =>
    cases cmd
    all_goals cases hkind
    all_goals cases hvalue <;> rfl

/-- The driver waits for the reply to `cmd`, or for none. -/
structure Mode.Serves (m : Mode) (cmd : Command) : Prop where
  awaiting : ∀ kind, m.state = .awaiting kind → kind = cmd.awaitKind
  flag : m.awaitingReadyAsOk = true → cmd = .factoryReset

/-- A response to a line is the `+READY` of a factory reset, or the line is a well-formed reply to
the command that the driver serves. -/
theorem isReply_of_react [Target] {m m' : Mode} {cmd : Command} {line : List UInt8} {r : Response}
    (hm : m.Serves cmd) (h : react m line = .take (some (.response r)) m') :
    cmd = .factoryReset ∧ r = .ok ∨ IsReply cmd.awaitKind line r := by
  rcases response_of_react h with ⟨hready, rfl⟩ | ⟨kind, hkind, hreply⟩
  · exact Or.inl ⟨hm.flag hready, rfl⟩
  · obtain rfl := hm.awaiting kind hkind
    exact Or.inr hreply

/-- A response to a line answers the command that the driver serves. -/
theorem answeredBy_of_react [Target] {m m' : Mode} {cmd : Command} {line : List UInt8}
    {r : Response} (hm : m.Serves cmd) (h : react m line = .take (some (.response r)) m') :
    cmd.answeredBy r = true := by
  rcases isReply_of_react hm h with ⟨rfl, rfl⟩ | hreply
  · rfl
  · exact answeredBy_of_isReply hreply

/-! ### Prompt runs -/

/-- What holds of a driver whose slices are acknowledged at once. -/
structure PromptInv (calls : List Call) (d : Driver) : Prop where
  /-- An idle driver has sent everything and waits for nothing. -/
  idle : d.state = .idle → d.tx.data = [] ∧ d.awaitingReadyAsOk = false
  /-- A command is either not handed out or has just been. -/
  sendingTx : d.state = .sendingTx → d.txInFlight = 0 ∨
    d.txInFlight = d.tx.len ∧ calls.getLast? = some (.poll (.needTx d.tx.data))
  /-- The command in flight is unanswered. -/
  unanswered : d.state ≠ .idle → ∃ cmd, Unanswered calls cmd ∧ d.Serves cmd

theorem promptInv_new : PromptInv [] .new :=
  ⟨fun _ => ⟨rfl, rfl⟩, (fun hs => by cases hs), fun h => absurd rfl h⟩

/-- Before a call other than an acknowledgement, a command being sent is not handed out. -/
theorem PromptInv.inFlight_eq_zero {calls : List Call} {c : Call} {d : Driver}
    (h : PromptInv calls d) (hp : Prompt (calls ++ [c])) (hc : ∀ n, c ≠ .ackTx n)
    (hstate : d.state = .sendingTx) : d.txInFlight = 0 := by
  refine (h.sendingTx hstate).resolve_right fun hlast => ?_
  obtain ⟨n, -, rfl⟩ := hp.ack_of_last hlast.2
  exact hc n rfl

/-- A call that leaves the command in flight alone. -/
theorem PromptInv.quiet {calls : List Call} {c : Call} {d d' : Driver} (h : PromptInv calls d)
    (hc : c.Quiet) (hstate : d'.state = d.state)
    (hflag : d'.awaitingReadyAsOk = d.awaitingReadyAsOk) (htx : d'.tx = d.tx)
    (hkind : d'.pendingKind = d.pendingKind) (hsend : d.state = .sendingTx →
      d'.txInFlight = 0 ∨ d'.txInFlight = d.tx.len ∧ c = .poll (.needTx d.tx.data)) :
    PromptInv (calls ++ [c]) d' where
  idle hi := by
    rw [htx, hflag]
    exact h.idle (hstate ▸ hi)
  sendingTx hs := by
    rw [htx]
    exact (hsend (hstate ▸ hs)).imp_right fun hc => ⟨hc.1, by rw [hc.2]; simp⟩
  unanswered hne := by
    obtain ⟨cmd, hu, hs⟩ := h.unanswered (hstate ▸ hne)
    exact ⟨cmd, hu.append hc, by rw [hflag]; exact hs.flag,
      by rw [hstate, hkind]; exact hs.pending, by rw [hstate]; exact hs.awaiting⟩

/-- A call after which no command is in flight. -/
theorem promptInv_of_idle {calls : List Call} {d : Driver} (htx : d.tx.data = [])
    (hm : d.mode = .idle) : PromptInv calls d where
  idle _ := ⟨htx, congrArg Mode.awaitingReadyAsOk hm⟩
  sendingTx hs := by cases (congrArg Mode.state hm).symm.trans hs
  unanswered hne := absurd (congrArg Mode.state hm) hne

theorem factoryReset_fits {d : Driver} (htx : d.tx.data = []) :
    d.tx.len + (wire .factoryReset).length ≤ txBuf := by
  rw [HVec.len, htx]
  decide

/-! ### One call -/

section Step

variable {calls : List Call} {d d' : Driver}

/-- A command that is refused leaves the driver idle, and is no factory reset. -/
theorem PromptInv.refuse (h : PromptInv calls d) {cmd : Command} (hidle : d.state = .idle)
    (hfull : txBuf < d.tx.len + (wire cmd).length) :
    PromptInv (calls ++ [.submit cmd (.error .txOverflow)])
      { d with awaitingReadyAsOk := decide (cmd = .factoryReset) } := by
  refine promptInv_of_idle (h.idle hidle).1 (Mode.ext hidle (decide_eq_false ?_))
  rintro rfl
  exact absurd (factoryReset_fits (h.idle hidle).1) (Nat.not_le.mpr hfull)

theorem PromptInv.accept (hinv : d.Inv) (h : PromptInv calls d) {cmd : Command}
    (hidle : d.state = .idle) (hfit : d.tx.len + (wire cmd).length ≤ txBuf) :
    PromptInv (calls ++ [.submit cmd (.ok ())]) (d.accept cmd hfit) where
  idle hstate := by cases hstate
  sendingTx _ := by
    left
    show d.txInFlight = 0
    rw [hinv.idle hidle, HVec.len, (h.idle hidle).1]
    rfl
  unanswered _ := by
    refine ⟨cmd, ⟨calls, [], rfl, by simp⟩, rfl, fun _ => rfl, fun kind hkind => ?_⟩
    cases hkind

/-- A command in flight has been handed out once the driver looks at the lines. -/
theorem exists_awaiting (hinv : d.Inv) (hzero : d.state = .sendingTx → d.txInFlight = 0)
    (htx : d.tx.len ≤ d.txInFlight) (hne : d.state ≠ .idle) : ∃ kind, d.state = .awaiting kind := by
  cases hs : d.state with
  | idle => exact absurd hs hne
  | awaiting kind => exact ⟨kind, rfl⟩
  | sendingTx =>
    rw [hzero hs, Nat.le_zero] at htx
    exact absurd (List.eq_nil_of_length_eq_zero htx) (hinv.sendingTx hs).1

/-- A line that makes the driver idle, or yields a response, answers a command that is awaited. -/
theorem PromptInv.awaiting_of_react [Target] (hinv : d.Inv) (h : PromptInv calls d)
    (hzero : d.state = .sendingTx → d.txInFlight = 0) (htx : d.tx.len ≤ d.txInFlight) {m : Mode}
    {line : List UInt8} {o : Option Output} (hl : react d.mode line = .take o m)
    (ho : m ≠ d.mode ∨ ∃ r, o = some (.response r)) :
    m = .idle ∧ ∃ kind, d.state = .awaiting kind := by
  obtain ⟨hm, hflag | hkind⟩ := inFlight_of_react hl ho
  · refine ⟨hm, exists_awaiting hinv hzero htx fun hidle => ?_⟩
    cases (h.idle hidle).2.symm.trans hflag
  · exact ⟨hm, hkind⟩

theorem PromptInv.lines [Target] (hinv : d.Inv) (h : PromptInv calls d)
    (hzero : d.state = .sendingTx → d.txInFlight = 0) (htx : d.tx.len ≤ d.txInFlight)
    {o : Option Output} (hn : driverMachine.next d.mode d.rx.data = .ok (o, d'.mode, d'.rx.data))
    (hsame : Driver.SameTx d d') : PromptInv (calls ++ [.poll (pollOf o)]) d' := by
  have hkeep (hm : d'.mode = d.mode) (hq : (Call.poll (pollOf o)).Quiet) :
      PromptInv (calls ++ [.poll (pollOf o)]) d' :=
    h.quiet hq (congrArg Mode.state hm) (congrArg Mode.awaitingReadyAsOk hm) hsame.tx
      hsame.pendingKind fun hs => Or.inl (hsame.txInFlight.trans (hzero hs))
  obtain ⟨skipped, -, ⟨rfl, hm, -⟩ | ⟨l, -, hl, -⟩⟩ := LineMachine.next_inv hn
  · have hquiet : (Call.poll .idle).Quiet := ⟨rfl, by simp⟩
    exact hkeep hm hquiet
  -- an event or a rejected line leaves the command in flight as it is
  by_cases ho : d'.mode ≠ d.mode ∨ ∃ r, o = some (.response r)
  · obtain ⟨hm, kind, hkind⟩ := h.awaiting_of_react hinv hzero htx hl ho
    exact promptInv_of_idle (hsame.tx ▸ (hinv.awaiting kind hkind).1) hm
  · push Not at ho
    have hquiet : (Call.poll (pollOf o)).Quiet := by
      refine ⟨rfl, ?_⟩
      intro r hr
      have hout : pollOf o = pollOf (some (.response r)) := Call.poll.inj hr
      exact ho.2 r (pollOf_injective hout)
    exact hkeep ho.1 hquiet

/-- An acknowledgement that does not complete a command acknowledges nothing. -/
theorem PromptInv.ack (hinv : d.Inv) {n : Nat} (hp : Prompt (calls ++ [.ackTx n]))
    (h : PromptInv calls d) (hnot : ¬ ((d.dropSent n).tx.data = [] ∧ d.state = .sendingTx)) :
    PromptInv (calls ++ [.ackTx n]) (d.dropSent n) := by
  -- had the command been handed out, all of it would be acknowledged now
  have hsend (hs : d.state = .sendingTx) : d.txInFlight = 0 := by
    apply (h.sendingTx hs).resolve_right
    rintro ⟨hall, hlast⟩
    refine hnot ⟨?_, hs⟩
    obtain ⟨_, hn, hc⟩ := hp.ack_of_last hlast
    cases hc
    rw [Driver.dropSent, HVec.data_dropFront, Driver.ackCount, hall, HVec.len]
    exact List.drop_of_length_le (le_min hn le_rfl)
  have hquiet : (Call.ackTx n).Quiet := Call.quiet_of_accepted rfl (by simp)
  have htx : (d.dropSent n).tx = d.tx := by
    ext1
    rw [Driver.dropSent, HVec.data_dropFront]
    cases hs : d.state with
    | sendingTx => rw [Driver.ackCount, hsend hs, Nat.min_zero, List.drop_zero]
    | idle => rw [(h.idle hs).1, List.drop_nil]
    | awaiting kind => rw [(hinv.awaiting kind hs).1, List.drop_nil]
  refine h.quiet hquiet rfl rfl htx rfl ?_
  intro hs
  have hflight : (d.dropSent n).txInFlight = 0 := by
    show d.txInFlight - d.ackCount n = 0
    rw [hsend hs, Nat.zero_sub]
  exact Or.inl hflight

/-- The acknowledgement that completes a command. -/
theorem PromptInv.sent (h : PromptInv calls d) {n : Nat} {kind : AwaitKind}
    (hstate : d.state = .sendingTx) (hkind : d.pendingKind = some kind) :
    PromptInv (calls ++ [.ackTx n])
      { d.dropSent n with state := .awaiting kind, pendingKind := none } where
  idle hs := by cases hs
  sendingTx hs := by cases hs
  unanswered _ := by
    have hne : d.state ≠ .idle := by
      intro hidle
      cases hstate.symm.trans hidle
    obtain ⟨cmd, hu, hs⟩ := h.unanswered hne
    have hquiet : (Call.ackTx n).Quiet := Call.quiet_of_accepted rfl (by simp)
    have hcmd : kind = cmd.awaitKind := Option.some.inj (hkind.symm.trans (hs.pending hstate))
    refine ⟨cmd, hu.append hquiet, hs.flag, ?_, ?_⟩
    · intro hsending
      cases hsending
    · intro k hk
      exact (State.awaiting.inj hk).symm.trans hcmd

theorem promptInv_step [Target] {op : Op} {c : Call} (hinv : d.Inv) (hp : Prompt (calls ++ [c]))
    (h : PromptInv calls d) (hstep : d.step op = .ok (c, d')) : PromptInv (calls ++ [c]) d' := by
  have hzero := h.inFlight_eq_zero hp
  cases Driver.step_spec hinv hstep with
  | busy cmd =>
    have hquiet : (Call.submit cmd (.error .busy)).Quiet := Call.quiet_of_accepted rfl (by simp)
    refine h.quiet hquiet rfl rfl rfl rfl ?_
    intro hs
    exact Or.inl (hzero (by simp) hs)
  | refuse cmd hidle hfull => exact h.refuse hidle hfull
  | accept cmd hfit hidle => exact h.accept hinv hidle hfit
  | push | overflow =>
    refine h.quiet (Call.quiet_of_accepted rfl (by simp)) rfl rfl rfl rfl ?_
    intro hs
    exact Or.inl (hzero (by simp) hs)
  | needTx htx =>
    have hquiet : (Call.poll (.needTx (d.tx.data.drop d.txInFlight))).Quiet := ⟨rfl, by simp⟩
    refine h.quiet hquiet rfl rfl rfl rfl ?_
    intro hs
    -- nothing of the command was in flight, so all of `tx` is handed out
    refine Or.inr ⟨rfl, ?_⟩
    rw [hzero (by simp) hs, List.drop_zero]
  | lines o _ htx hn hsame => exact h.lines hinv (hzero (by simp)) htx hn hsame
  | ack n hnot => exact h.ack hinv hp hnot
  | sent n kind htx hstate hkind => exact h.sent hstate hkind

/-- A response answers the command that is unanswered. -/
theorem PromptInv.answers [Target] (hinv : d.Inv) {r : Response}
    (hp : Prompt (calls ++ [.poll (.response r)])) (h : PromptInv calls d) {op : Op}
    (hstep : d.step op = .ok (.poll (.response r), d')) :
    ∃ cmd, Unanswered calls cmd ∧ cmd.answeredBy r = true := by
  have hzero := h.inFlight_eq_zero hp (by simp)
  generalize hc : Call.poll (.response r) = c at hstep
  cases Driver.step_spec hinv hstep with
  | lines o _ htx hn hsame =>
    obtain rfl : some (.response r) = o := pollOf_injective (Call.poll.inj hc)
    obtain ⟨skipped, -, ⟨ho, -⟩ | ⟨l, -, hl, -⟩⟩ := LineMachine.next_inv hn
    · cases ho
    obtain ⟨-, kind, hkind⟩ := h.awaiting_of_react hinv hzero htx hl (Or.inr ⟨r, rfl⟩)
    obtain ⟨cmd, hu, hs⟩ := h.unanswered fun hidle => by cases hidle.symm.trans hkind
    have hm : d.mode.Serves cmd :=
      ⟨hs.awaiting, fun hflag => of_decide_eq_true (hs.flag.symm.trans hflag)⟩
    exact ⟨cmd, hu, answeredBy_of_react hm hl⟩
  | busy | refuse | accept | push | overflow | needTx | ack | sent => cases hc

end Step

/-! ### Whole runs -/

/-- A prompt run keeps the invariant, and all of its responses answer. -/
theorem Runs.promptInv [Target] {ops : List Op} {calls : List Call} {d : Driver}
    (h : Runs ops calls d) : Prompt calls → PromptInv calls d ∧
      ∀ pre r post, calls = pre ++ .poll (.response r) :: post →
        ∃ cmd, Unanswered pre cmd ∧ cmd.answeredBy r = true := by
  refine Component.run_induction (P := fun _ calls d => Prompt calls → PromptInv calls d ∧
      ∀ pre r post, calls = pre ++ .poll (.response r) :: post →
        ∃ cmd, Unanswered pre cmd ∧ cmd.answeredBy r = true) ?_ ?_ ops calls d h
  · intro _
    refine ⟨promptInv_new, ?_⟩
    intro pre r post heq
    cases (List.append_eq_nil_iff.mp heq.symm).2
  · intro ops calls d op c d' hr ih hstep hp
    obtain ⟨hinv, hanswers⟩ := ih hp.of_append
    refine ⟨promptInv_step (Runs.inv hr) hp hinv hstep, ?_⟩
    intro pre r post heq
    -- the response is the last call or one of those before it
    rcases List.eq_nil_or_concat post with rfl | ⟨post, c', rfl⟩
    · obtain ⟨rfl, rfl⟩ := List.append_inj' heq rfl |>.imp_right fun h => (List.cons.inj h).1
      exact hinv.answers (Runs.inv hr) hp hstep
    · apply hanswers pre r post
      rw [List.concat_eq_append, ← List.cons_append, ← List.append_assoc] at heq
      exact (List.append_inj' heq rfl).1

/-- **Single in flight.** In a run in which every slice is acknowledged in full before the next
call, there is an accepted command before each response with no response after it, and the response
answers the one accepted last. -/
theorem response_pairing [Target] {ops : List Op} {calls : List Call} {d : Driver}
    (h : Runs ops calls d) (hp : Prompt calls) {pre post : List Call} {r : Response}
    (heq : calls = pre ++ .poll (.response r) :: post) :
    ∃ before cmd mid, pre = before ++ .submit cmd (.ok ()) :: mid ∧
      (∀ c ∈ mid, c.accepted? = none ∧ ∀ r', c ≠ .poll (.response r')) ∧
      cmd.answeredBy r = true := by
  obtain ⟨cmd, ⟨before, mid, hpre, hmid⟩, hr⟩ := (h.promptInv hp).2 pre r post heq
  exact ⟨before, cmd, mid, hpre, hmid, hr⟩

section

attribute [local instance] Target.host

/-- A ping and its reply. -/
theorem response_pairing_ping : ∃ before cmd mid,
    [.submit .ping (.ok ()), .poll (.needTx (wire .ping)), .ackTx 4,
      .pushRx (utf8 "+OK\r\n") (.ok 5)] = before ++ Call.submit cmd (.ok ()) :: mid ∧
    (∀ c ∈ mid, c.accepted? = none ∧ ∀ r', c ≠ .poll (.response r')) ∧
    cmd.answeredBy .ok = true := by
  have hrun : Runs [.submit .ping, .poll, .ackTx 4, .pushRx (utf8 "+OK\r\n"), .poll]
      [.submit .ping (.ok ()), .poll (.needTx (wire .ping)), .ackTx 4,
        .pushRx (utf8 "+OK\r\n") (.ok 5), .poll (.response .ok)]
      (Driver.new.copyLine (utf8 "+OK")) := by
    unfold Runs
    decide +kernel
  refine response_pairing hrun ?_ rfl
  rintro pre bs post heq
  rcases pre with _ | ⟨_, _ | ⟨_, _ | ⟨_, _ | ⟨_, _ | ⟨_, pre⟩⟩⟩⟩⟩ <;> simp at heq
  obtain ⟨-, rfl, rfl⟩ := heq
  exact Or.inr ⟨4, _, by decide, rfl⟩

end

end Rylr998
