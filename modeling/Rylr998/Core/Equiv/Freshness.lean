import Rylr998.Core.Equiv.Lines
import Rylr998.Core.Equiv.Runs

/-!
# Stale replies

A response is fresh when its line was pushed after the command's bytes had been handed out. `Traced`
runs the driver and notes what `rx` held at the last hand-out and what was pushed since. The driver
makes no difference between the two: a response is stale exactly when, behind lines that are passed
over, an answer begins in the bytes that were there before (`no_stale_reply_iff`).
-/

namespace Rylr998

open Framing

/-- A driver with notes. -/
structure Traced where
  driver : Driver
  /-- The command accepted last. -/
  cmd : Option Command
  /-- What `rx` held when bytes were handed out last. -/
  old : List UInt8
  /-- What was appended to `rx` since. -/
  since : List UInt8
  deriving DecidableEq

namespace Traced

/-- A fresh driver. -/
def init : Traced := ⟨.new, none, [], []⟩

/-- The notes after the call `c`, which leads to the driver `d`. -/
def note (t : Traced) (c : Call) (d : Driver) : Traced :=
  match c with
  | .submit cmd (.ok ()) => { t with driver := d, cmd := some cmd }
  | .poll (.needTx _) => { t with driver := d, old := d.rx.data, since := [] }
  | .pushRx _ _ => { t with driver := d, since := t.since ++ d.rx.data.drop t.driver.rx.len }
  | _ => { t with driver := d }

/-- Call an operation of the driver and take notes. -/
def step [Target] (t : Traced) (op : Op) : Except Fault (Call × Traced) :=
  (t.driver.step op).map fun p => (p.1, t.note p.1 p.2)

end Traced

/-- In the run of `ops`, after the operations `pre`, `poll` returns a response while a command is in
flight; it leads from `t` to `t'`. -/
def RespondsAt [Target] (ops pre : List Op) (t t' : Traced) : Prop :=
  pre ++ [.poll] <+: ops ∧ (∃ calls, Component.run Traced.step .init pre = .ok (calls, t)) ∧
    t.driver.state ≠ .idle ∧ ∃ r, t.step .poll = .ok (.poll (.response r), t')

/-- The line that a `poll` from `t` to `t'` consumed last was pushed after the last hand-out. -/
def Fresh (t t' : Traced) : Prop :=
  ∃ skipped line, (∀ l ∈ skipped, cr ∉ l) ∧ cr ∉ line ∧
    t.driver.rx.data = crlf.unlines skipped ++ (line ++ cr :: lf :: t'.driver.rx.data) ∧
    line.length + 2 + t'.driver.rx.len ≤ t.since.length

/-- No response of the run is built from bytes that were in `rx` when the command was handed out. -/
def NoStaleReply [Target] (ops : List Op) : Prop :=
  ∀ pre t t', RespondsAt ops pre t t' → Fresh t t'

/-- While `cmd` is in flight the driver passes over the line. -/
def Passes (cmd : Command) (line : List UInt8) : Prop :=
  (cmd = .factoryReset ∧ startsWith line (utf8 "+RESET") = true) ∨
    (isEventLine line = true ∧ ¬ (cmd = .factoryReset ∧ line = utf8 "+READY"))

/-- The line answers `cmd`. -/
def Answers (cmd : Command) (line : List UInt8) : Prop :=
  (cmd = .factoryReset ∧ line = utf8 "+READY") ∨
    (isEventLine line = false ∧ Driver.responseMatches cmd.awaitKind line = true ∧
      ∃ r, parseResponse line = .ok r)

/-- Behind lines that are passed over, an answer to `cmd` begins in the bytes `old`, which `since`
may complete. -/
def StaleAnswer (cmd : Command) (old since : List UInt8) : Prop :=
  ∃ passed line rest, old ++ since = crlf.unlines passed ++ (line ++ cr :: lf :: rest) ∧
    (crlf.unlines passed).length < old.length ∧ (∀ l ∈ passed, cr ∉ l ∧ Passes cmd l) ∧
    cr ∉ line ∧ Answers cmd line

/-! ### Lines of the command in flight -/

theorem not_passes_of_answers {cmd : Command} {line : List UInt8} (h : Answers cmd line) :
    ¬ Passes cmd line := by
  rintro (⟨rfl, hreset⟩ | ⟨hevent, hready⟩)
  · rcases h with ⟨-, rfl⟩ | ⟨-, hm, r, hr⟩
    · exact absurd hreset (by decide)
    · rcases (responseMatches_ack line).mp hm with herr | rfl | rfl | rfl
      · obtain ⟨t, rfl⟩ := startsWith_iff.mp herr
        rw [startsWith_append_of_ne (by decide)] at hreset
        cases hreset
      · exact absurd hreset (by decide)
      · rw [show parseResponse (utf8 "+RESET") = .error .parse by decide +kernel] at hr
        cases hr
      · exact absurd hreset (by decide)
  · rcases h with h | ⟨hevent', -⟩
    · exact hready h
    · rw [hevent] at hevent'
      cases hevent'

/-! ### The notes -/

theorem Traced.note_pollOf (t : Traced) (o : Option Output) (d : Driver) :
    t.note (.poll (pollOf o)) d = { t with driver := d } := by
  rcases o with _ | r | e <;> rfl

theorem Traced.note_cmd (t : Traced) (c : Call) (d : Driver) :
    (t.note c d).cmd = c.accepted?.or t.cmd := by
  rcases c with ⟨_, _ | _⟩ | _ | p | _
  case poll => cases p <;> rfl
  all_goals rfl

theorem Traced.note_driver (t : Traced) (c : Call) (d : Driver) : (t.note c d).driver = d := by
  unfold note
  split <;> rfl

/-- While a command is in flight and handed out, the lines consumed since the hand-out are passed
over, and `rx` is what is left. -/
structure TracedInv (t : Traced) : Prop where
  inv : t.driver.Inv
  serves : t.driver.ServesLast t.cmd
  passed : t.driver.state ≠ .idle → t.driver.tx.len ≤ t.driver.txInFlight →
    ∃ passed, (∀ l ∈ passed, cr ∉ l ∧ ∀ cmd, t.cmd = some cmd → Passes cmd l) ∧
      t.old ++ t.since = crlf.unlines passed ++ t.driver.rx.data

/-- Bytes appended to `rx` are noted. -/
theorem TracedInv.passed_push {t : Traced} (ht : TracedInv t) {rx : HVec UInt8 rxBuf}
    {bytes : List UInt8} (hrx : rx.data = t.driver.rx.data ++ bytes) (hne : t.driver.state ≠ .idle)
    (hsent : t.driver.tx.len ≤ t.driver.txInFlight) :
    ∃ passed, (∀ l ∈ passed, cr ∉ l ∧ ∀ cmd, t.cmd = some cmd → Passes cmd l) ∧
      t.old ++ (t.since ++ rx.data.drop t.driver.rx.len) = crlf.unlines passed ++ rx.data := by
  obtain ⟨passed, hpassed, heq⟩ := ht.passed hne hsent
  refine ⟨passed, hpassed, ?_⟩
  rw [hrx, HVec.len, List.drop_left, ← List.append_assoc, heq, List.append_assoc]

theorem tracedInv_init : TracedInv .init :=
  ⟨Driver.inv_new, fun h => absurd rfl h, fun h => absurd rfl h⟩

section

variable [Target]

theorem passes_of_skip {m : Mode} {cmd : Command} {line : List UInt8}
    (hflag : m.awaitingReadyAsOk = decide (cmd = .factoryReset)) (h : react m line = .skip) :
    Passes cmd line := by
  have hs := react_spec m line
  rw [h] at hs
  cases hs with
  | reset _ hf hreset => exact Or.inl ⟨of_decide_eq_true (hflag.symm.trans hf), hreset⟩

/-- A line that is taken while the command stays in flight is passed over. -/
theorem passes_of_take {m : Mode} {cmd : Command} {line : List UInt8} {o : Option Output}
    (hflag : m.awaitingReadyAsOk = decide (cmd = .factoryReset)) (hne : m.state ≠ .idle)
    (h : react m line = .take o m) : Passes cmd line := by
  have hs := react_spec m line
  rw [h] at hs
  cases hs with
  | ready | reply => exact absurd rfl hne
  | event e _ hevent hready =>
    exact Or.inr ⟨hevent, fun ⟨hc, hl⟩ => hready ⟨hflag.trans (decide_eq_true hc), hl⟩⟩
  | rejected e _ hevent hparse =>
    refine Or.inr ⟨hevent, fun ⟨_, hl⟩ => ?_⟩
    rw [hl] at hparse
    cases hparse

/-- A line that yields a response answers the command. -/
theorem answers_of_take {m m' : Mode} {cmd : Command} {line : List UInt8} {r : Response}
    (hflag : m.awaitingReadyAsOk = decide (cmd = .factoryReset))
    (hkind : ∀ kind, m.state = .awaiting kind → kind = cmd.awaitKind)
    (h : react m line = .take (some (.response r)) m') : Answers cmd line := by
  have hs := react_spec m line
  rw [h] at hs
  generalize ho : some (Output.response r) = o at hs
  cases hs with
  | ready hf hl => exact Or.inl ⟨of_decide_eq_true (hflag.symm.trans hf), hl⟩
  | event | rejected => cases ho
  | reply kind _ hstate hevent hm =>
    rw [hkind kind hstate] at hm
    unfold replyOutput at ho
    split at ho
    · next r' hr => exact Or.inr ⟨hevent, hm, r', hr⟩
    · cases ho

/-! ### The invariant -/

theorem Traced.step_inv {t t' : Traced} {op : Op} {c : Call} (h : t.step op = .ok (c, t')) :
    ∃ d, t.driver.step op = .ok (c, d) ∧ t' = t.note c d := by
  unfold Traced.step at h
  obtain ⟨⟨c', d⟩, hd, h⟩ := Except.map_eq_ok.mp h
  obtain ⟨rfl, rfl⟩ := Prod.mk.inj h
  exact ⟨d, hd, rfl⟩

/-- The lines that a `poll` consumes are passed over when the command stays in flight. -/
theorem TracedInv.passed_lines {t : Traced} (ht : TracedInv t)
    (htx : t.driver.tx.len ≤ t.driver.txInFlight) {d : Driver} {o : Option Output}
    (hn : driverMachine.next t.driver.mode t.driver.rx.data = .ok (o, d.mode, d.rx.data))
    (hne : d.state ≠ .idle) :
    ∃ passed, (∀ l ∈ passed, cr ∉ l ∧ ∀ cmd, t.cmd = some cmd → Passes cmd l) ∧
      t.old ++ t.since = crlf.unlines passed ++ d.rx.data := by
  have hm : d.mode = t.driver.mode :=
    (next_mode hn).resolve_right fun hidle => hne (congrArg Mode.state hidle)
  have hstate : t.driver.state ≠ .idle := fun hs => hne ((congrArg Mode.state hm).trans hs)
  obtain ⟨cmd, hcmd, hs⟩ := ht.serves hstate
  have hall {ls : List (List UInt8)} (h : ∀ l ∈ ls, cr ∉ l ∧ Passes cmd l) :
      ∀ l ∈ ls, cr ∉ l ∧ ∀ cmd', t.cmd = some cmd' → Passes cmd' l := by
    intro l hl
    refine ⟨(h l hl).1, ?_⟩
    intro cmd' hcmd'
    rw [← Option.some.inj (hcmd.symm.trans hcmd')]
    exact (h l hl).2
  -- the lines skipped now come behind those passed over before
  obtain ⟨passed, hpassed, heq⟩ := ht.passed hstate htx
  obtain ⟨skipped, hskip, hcase⟩ := LineMachine.next_inv hn
  have hskipped : ∀ l ∈ skipped, cr ∉ l ∧ Passes cmd l := by
    intro l hl
    exact ⟨(hskip l hl).1, passes_of_skip hs.flag (hskip l hl).2⟩
  rcases hcase with ⟨-, -, hrx, -⟩ | ⟨l, hl, hr, hrx⟩
  · refine ⟨passed ++ skipped, List.forall_mem_append.mpr ⟨hpassed, hall hskipped⟩, ?_⟩
    rw [heq, hrx, Terminator.unlines_append, List.append_assoc]
    rfl
  · rw [hm] at hr
    have hlast : ∀ x ∈ [l], cr ∉ x ∧ Passes cmd x :=
      List.forall_mem_singleton.mpr ⟨hl, passes_of_take hs.flag hstate hr⟩
    have hconsumed : ∀ x ∈ skipped ++ [l], cr ∉ x ∧ Passes cmd x :=
      List.forall_mem_append.mpr ⟨hskipped, hlast⟩
    refine ⟨passed ++ (skipped ++ [l]),
      List.forall_mem_append.mpr ⟨hpassed, hall hconsumed⟩, ?_⟩
    rw [heq, hrx]
    simp

theorem tracedInv_step {t t' : Traced} {op : Op} {c : Call} (ht : TracedInv t)
    (h : t.step op = .ok (c, t')) : TracedInv t' := by
  obtain ⟨d, hd, rfl⟩ := Traced.step_inv h
  have hinv := Driver.inv_step ht.inv hd
  have hserves := Driver.servesLast_step ht.inv ht.serves hd
  refine ⟨by rwa [Traced.note_driver], by rwa [Traced.note_driver, Traced.note_cmd], ?_⟩
  rw [Traced.note_driver]
  cases Driver.step_spec ht.inv hd with
  | busy => exact ht.passed
  | refuse cmd hidle => exact fun hne => absurd hidle hne
  | accept cmd hfit =>
    -- the new command is not handed out yet
    intro _ hsent
    have := ht.inv.inFlight_le
    have hwire := List.length_pos_iff.mpr (wire_ne_nil cmd)
    simp only [Driver.accept, HVec.len, HVec.data_append, List.length_append] at hsent this
    omega
  | push bytes => exact ht.passed_push rfl
  | overflow bytes rx _ hrx => exact ht.passed_push hrx
  | needTx => exact fun _ _ => ⟨[], by simp, by simp [Traced.note]⟩
  | lines o _ htx hn hsame =>
    intro hne hsent
    rw [Traced.note_pollOf]
    exact ht.passed_lines htx hn hne
  | ack n hnot =>
    intro hne hsent
    -- as many bytes leave `tx` as are no longer in flight
    have := Driver.dropSent_len ht.inv n
    exact ht.passed hne (by omega)
  | sent n kind htx hstate hkind =>
    intro hne hsent
    have := Driver.dropSent_len ht.inv n
    apply ht.passed (fun hidle => by cases hstate.symm.trans hidle)
    have hsent' : (t.driver.dropSent n).tx.len ≤ (t.driver.dropSent n).txInFlight := hsent
    omega

/-- The line of a response, behind the lines consumed since the hand-out. -/
theorem exists_answer {t t' : Traced} {r : Response} (ht : TracedInv t)
    (hne : t.driver.state ≠ .idle) (h : t.step .poll = .ok (.poll (.response r), t')) :
    ∃ cmd passed skipped line, t.cmd = some cmd ∧
      (∀ l ∈ passed ++ skipped, cr ∉ l ∧ Passes cmd l) ∧ cr ∉ line ∧ Answers cmd line ∧
      t.driver.rx.data = crlf.unlines skipped ++ (line ++ cr :: lf :: t'.driver.rx.data) ∧
      t.old ++ t.since =
        crlf.unlines (passed ++ skipped) ++ (line ++ cr :: lf :: t'.driver.rx.data) := by
  obtain ⟨d, hd, rfl⟩ := Traced.step_inv h
  obtain ⟨p, hp, hpoll⟩ := Driver.step_poll_iff.mp hd
  cases hp
  obtain ⟨cmd, hcmd, hs⟩ := ht.serves hne
  rcases Driver.poll_inv hpoll with ⟨-, hp, -⟩ | ⟨htx, o, ho, hn, -⟩
  · cases hp
  obtain rfl : o = some (.response r) := pollOf_injective ho.symm
  obtain ⟨passed, hpassed, heq⟩ := ht.passed hne htx
  obtain ⟨skipped, hskip, ⟨hnone, -⟩ | ⟨line, hl, hr, hrx⟩⟩ := LineMachine.next_inv hn
  · cases hnone
  rw [Traced.note_driver]
  refine ⟨cmd, passed, skipped, line, hcmd, ?_, hl, answers_of_take hs.flag hs.awaiting hr, hrx, ?_⟩
  · rw [List.forall_mem_append]
    exact ⟨fun l hl => ⟨(hpassed l hl).1, (hpassed l hl).2 cmd hcmd⟩,
      fun l hl => ⟨(hskip l hl).1, passes_of_skip hs.flag (hskip l hl).2⟩⟩
  · rw [heq, hrx, Terminator.unlines_append, List.append_assoc]
    rfl

/-- A response is fresh exactly when no answer begins in the bytes that were there at the
hand-out. -/
theorem fresh_iff {t t' : Traced} {r : Response} (ht : TracedInv t) (hne : t.driver.state ≠ .idle)
    (h : t.step .poll = .ok (.poll (.response r), t')) {cmd : Command} (hcmd : t.cmd = some cmd) :
    Fresh t t' ↔ ¬ StaleAnswer cmd t.old t.since := by
  obtain ⟨cmd', passed, skipped, line, hcmd', hpass, hcr, hans, hrx, heq⟩ := exists_answer ht hne h
  obtain rfl : cmd = cmd' := Option.some.inj (hcmd.symm.trans hcmd')
  have hskipped : ∀ l ∈ skipped, cr ∉ l := fun l hl => (hpass l (List.mem_append_right _ hl)).1
  have hfresh : Fresh t t' ↔ line.length + 2 + t'.driver.rx.len ≤ t.since.length := by
    constructor
    · rintro ⟨skipped', line', hskipped', hcr', hrx', hle⟩
      -- the same bytes are consumed, so the lines are the same
      have hcut : crlf.unlines (skipped' ++ [line']) = crlf.unlines (skipped ++ [line]) := by
        have := hrx'.symm.trans hrx
        refine @List.append_cancel_right _ _ t'.driver.rx.data _ ?_
        simpa using this
      have hlines := crlf.unlines_inj
        (List.forall_mem_append.mpr ⟨hskipped', List.forall_mem_singleton.mpr hcr'⟩)
        (List.forall_mem_append.mpr ⟨hskipped, List.forall_mem_singleton.mpr hcr⟩) hcut
      obtain ⟨-, hlast⟩ := List.append_inj' hlines rfl
      obtain rfl := (List.cons.inj hlast).1
      exact hle
    · exact fun hle => ⟨skipped, line, hskipped, hcr, hrx, hle⟩
  have hstale : StaleAnswer cmd t.old t.since ↔
      (crlf.unlines (passed ++ skipped)).length < t.old.length := by
    constructor
    · rintro ⟨passed', line', rest', heq', hlt, hpass', hcr', hans'⟩
      obtain ⟨rfl, -⟩ := crlf.first_line_unique hpass' hpass
        ⟨hcr', not_passes_of_answers hans'⟩ ⟨hcr, not_passes_of_answers hans⟩ (heq'.symm.trans heq)
      exact hlt
    · exact fun hlt => ⟨_, line, _, heq, hlt, hpass, hcr, hans⟩
  have hlen := congrArg List.length heq
  simp only [List.length_append, List.length_cons] at hlen
  rw [hfresh, hstale, HVec.len]
  simp only [Terminator.unlines_append, List.length_append] at hlen ⊢
  omega

theorem RespondsAt.tracedInv {ops pre : List Op} {t t' : Traced} (h : RespondsAt ops pre t t') :
    TracedInv t := by
  obtain ⟨calls, hrun⟩ := h.2.1
  exact Component.run_invariant (fun _ _ _ _ ht hs => tracedInv_step ht hs) tracedInv_init hrun

/-- **Stale replies.** The responses of a run are fresh exactly when, at each of them, no answer
begins in the bytes that were in `rx` when the command was handed out. -/
theorem no_stale_reply_iff (ops : List Op) :
    NoStaleReply ops ↔ ∀ pre t t', RespondsAt ops pre t t' →
      ∀ cmd, t.cmd = some cmd → ¬ StaleAnswer cmd t.old t.since := by
  constructor
  · intro h pre t t' hat cmd hcmd
    obtain ⟨r, hr⟩ := hat.2.2.2
    exact (fresh_iff hat.tracedInv hat.2.2.1 hr hcmd).mp (h pre t t' hat)
  · intro h pre t t' hat
    obtain ⟨r, hr⟩ := hat.2.2.2
    obtain ⟨cmd, hcmd, -⟩ := hat.tracedInv.serves hat.2.2.1
    exact (fresh_iff hat.tracedInv hat.2.2.1 hr hcmd).mpr (h pre t t' hat cmd hcmd)

end

section

attribute [local instance] Target.host

/-- A `+OK` left over in `rx` answers the next command. -/
theorem stale_reply : ¬ ∀ ops, NoStaleReply ops := by
  intro h
  let d : Driver := { Driver.new.copyLine (utf8 "+OK") with
    rx := ⟨utf8 "+OK\r\n", by decide⟩, state := .awaiting .ack }
  obtain ⟨_, _, -, -, -, hle⟩ :=
    h [.pushRx (utf8 "+OK\r\n"), .poll, .submit .ping, .poll, .ackTx 4, .poll]
      [.pushRx (utf8 "+OK\r\n"), .poll, .submit .ping, .poll, .ackTx 4]
      ⟨d, some .ping, utf8 "+OK\r\n", []⟩
      ⟨Driver.new.copyLine (utf8 "+OK"), some .ping, utf8 "+OK\r\n", []⟩
      ⟨⟨[], rfl⟩, ⟨[.pushRx (utf8 "+OK\r\n") (.ok 5), .poll .idle, .submit .ping (.ok ()),
        .poll (.needTx (wire .ping)), .ackTx 4], by decide +kernel⟩, nofun, .ok,
        by decide +kernel⟩
  exact absurd hle (by simp)

end

end Rylr998
