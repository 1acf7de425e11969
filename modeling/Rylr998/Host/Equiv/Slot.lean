import Rylr998.Core.Equiv.Runs
import Rylr998.Host.Equiv.Arrive
import Rylr998.Host.Equiv.Submit

/-!
# The command slot on return

The README says that the methods of the host crates do not return until their command slot is clear.
They do when the reply is reached or the command is refused, and otherwise, after a time-out or an
error of the port, return with the command in flight (`slot_clear_iff`): the next command is
refused as busy (`slot_not_clear`).
-/

namespace Rylr998

open Framing

/-- The mode in which the driver waits for the reply to `cmd`. Bytes of an earlier command that were
never acknowledged keep it from waiting. -/
def sentMode (d : Driver) (cmd : Command) : Mode where
  state := if d.tx.data = [] then .awaiting cmd.awaitKind else .sendingTx
  awaitingReadyAsOk := decide (cmd = .factoryReset)

section Accept

variable {d : Driver} {cmd : Command} (hinv : d.Inv) (hidle : d.state = .idle)
  (hfit : d.tx.len + (wire cmd).length ≤ txBuf)

include hinv hidle

theorem accept_inFlight_lt : (d.accept cmd hfit).txInFlight < (d.accept cmd hfit).tx.len := by
  have hpos := List.length_pos_of_ne_nil (wire_ne_nil cmd)
  have hflight := hinv.idle hidle
  simp only [Driver.accept, HVec.len, HVec.data_append, List.length_append] at hflight ⊢
  omega

/-- After the write the driver waits for the reply, unless bytes of an earlier command are left. -/
theorem flushed_accept :
    (d.accept cmd hfit).flushed.mode = sentMode d cmd ∧ (d.accept cmd hfit).flushed.Sent ∧
      (d.accept cmd hfit).flushed.rx = d.rx := by
  have hflight := hinv.idle hidle
  let d₁ : Driver := { d.accept cmd hfit with txInFlight := (d.accept cmd hfit).tx.len }
  let k := (d.accept cmd hfit).tx.len - (d.accept cmd hfit).txInFlight
  have hk : d₁.ackCount k = (wire cmd).length := by
    simp only [d₁, k, Driver.ackCount, Driver.accept, HVec.len, HVec.data_append,
      List.length_append] at hflight ⊢
    omega
  have hdata : (d₁.dropSent k).tx.data = [] ↔ d.tx.data = [] := by
    rw [Driver.dropSent, HVec.data_dropFront, hk, List.drop_eq_nil_iff]
    simp only [d₁, Driver.accept, HVec.data_append, List.length_append]
    rw [← List.length_eq_zero_iff]
    omega
  have hsent : (d₁.dropSent k).tx.len ≤ (d₁.dropSent k).txInFlight := by
    simp only [Driver.dropSent, HVec.len, HVec.data_dropFront, List.length_drop, hk]
    exact Nat.le_refl _
  obtain ⟨htx, hflight', hrx, hflag⟩ := Driver.advance_same (d₁.dropSent k)
  refine ⟨Mode.ext ?_ hflag, ?_, hrx⟩
  · show (d₁.dropSent k).advance.state = _
    unfold sentMode
    by_cases hnil : d.tx.data = []
    · rw [Driver.advance_of_pending (hdata.mpr hnil) rfl rfl, if_pos hnil]
    · rw [Driver.advance_of_not fun h => hnil (hdata.mp h.1), if_neg hnil]
      rfl
  · show (d₁.dropSent k).advance.tx.len ≤ (d₁.dropSent k).advance.txInFlight
    rw [htx, hflight']
    exact hsent

end Accept

theorem sentMode_state_ne (d : Driver) (cmd : Command) : (sentMode d cmd).state ≠ .idle := by
  unfold sentMode
  split_ifs <;> nofun

section Pump

variable [Target] {ω ρ ε α : Type} {turn : Turn ω ρ ε} {io : ω → ε}
  {want : Response → Option (Except ε α)} {port : Port ω ρ} {d : Driver} {cmd : Command}
  (hinv : d.Inv) (hidle : d.state = .idle) (hfit : d.tx.len + (wire cmd).length ≤ txBuf)

include hinv hidle

/-- The bytes of an accepted command are written before anything is read. -/
theorem pump_accept_eq {writes : List (Except ω Unit)} (hw : port.writes = .ok () :: writes) :
    pump turn io want (d.accept cmd hfit) port =
      pump turn io want (d.accept cmd hfit).flushed { port with writes } := by
  have hloop := @pollLoop_of_needTx _ _ _ want _ port.writes
    (accept_inFlight_lt hinv hidle hfit)
  rw [pump, hloop, hw]
  conv_rhs => rw [pump]

/-- The slot of an accepted command is free on return exactly when its bytes are written and its
reply is reached. -/
theorem pump_accept {arrive : List UInt8 → Port ω ρ → Option (List UInt8 × Port ω ρ)}
    (harr : turn.Arrives arrive) {p : Pumped ω ρ ε α}
    (h : pump turn io want (d.accept cmd hfit) port = .ok p) :
    p.driver.state = .idle ↔ ∃ writes, port.writes = .ok () :: writes ∧
      ReplyReached arrive (sentMode d cmd) d.rx.data { port with writes } := by
  have hloop := @pollLoop_of_needTx _ _ _ want _ port.writes
    (accept_inFlight_lt hinv hidle hfit)
  rcases hw : port.writes with _ | ⟨e | ⟨⟩, writes⟩
  · rw [pump, hloop, hw] at h
    cases h
  · rw [pump, hloop, hw] at h
    cases h
    exact iff_of_false (fun hidle => by cases hidle) (by simp)
  · obtain ⟨hmode, hsent, hrx⟩ := flushed_accept hinv hidle hfit
    have hne : (d.accept cmd hfit).flushed.state ≠ .idle := by
      rw [← Driver.mode_state, hmode]
      exact sentMode_state_ne d cmd
    rw [pump_accept_eq hinv hidle hfit hw] at h
    rw [(pump_slot harr hsent h).2 hne, hmode, hrx]
    simp

end Pump

/-! ### The slot on return -/

/-- The command slot is clear: the next command is not refused as busy. -/
def SlotClear (d : Driver) : Prop :=
  d.state = .idle ∧ ∀ cmd r d', d.submit cmd = .ok (r, d') → r ≠ .error .busy

/-- `tx` has no room for the command. -/
def Refused (d : Driver) (cmd : Command) : Prop := txBuf < d.tx.len + (wire cmd).length

/-- The bytes of the command are written, and then the reply is reached. -/
def Resolves [Target] {ω ρ : Type} (arrive : List UInt8 → Port ω ρ → Option (List UInt8 × Port ω ρ))
    (d : Driver) (cmd : Command) (port : Port ω ρ) : Prop :=
  ∃ writes, port.writes = .ok () :: writes ∧
    ReplyReached arrive (sentMode d cmd) d.rx.data { port with writes }

theorem slotClear_iff {d : Driver} : SlotClear d ↔ d.state = .idle := by
  refine ⟨And.left, fun hidle => ⟨hidle, ?_⟩⟩
  rintro cmd _ d' h rfl
  rcases Driver.submit_error_inv h with ⟨-, hbusy, -⟩ | ⟨hbusy, -⟩
  · exact hbusy hidle
  · cases hbusy

/-- A submitted command, whatever the crate. -/
theorem submitThenPump_slot [Target] {δ ω ρ ε α : Type} {turn : δ → Turn ω ρ ε}
    {start : Port ω ρ → Except Halt (δ × Port ω ρ)} {io : ω → ε} {core : Error → ε} {cmd : Command}
    {want : Response → Option (Except ε α)} {d : Driver} {port : Port ω ρ}
    {arrive : δ → List UInt8 → Port ω ρ → Option (List UInt8 × Port ω ρ)} (hd : Reachable d)
    (hidle : d.state = .idle) (harr : ∀ deadline, (turn deadline).Arrives (arrive deadline))
    {p : Pumped ω ρ ε α} (h : submitThenPump turn start io core cmd want d port = .ok p) :
    SlotClear p.driver ↔ Refused d cmd ∨ ∃ deadline port', start port = .ok (deadline, port') ∧
      Resolves (arrive deadline) d cmd port' := by
  rw [slotClear_iff]
  rcases submitThenPump_inv h with ⟨e, d', hsubmit, rfl⟩ |
    ⟨d', deadline, port', hsubmit, hstart, hp⟩
  · rcases Driver.submit_error_inv hsubmit with ⟨-, hbusy, -⟩ | ⟨-, -, hfull, rfl⟩
    · exact absurd hidle hbusy
    · exact iff_of_true hidle (Or.inl hfull)
  · obtain ⟨-, hfit, rfl⟩ := Driver.submit_ok_inv hsubmit
    rw [pump_accept hd.inv hidle hfit (harr deadline) hp, hstart]
    simp [Refused, Nat.not_lt.mpr hfit, Resolves]

theorem exists_deadlineAfter {ω ρ : Type} {timeout : Nat} {port : Port ω ρ}
    {P : Nat → Port ω ρ → Prop} :
    (∃ deadline port', deadlineAfter timeout port = .ok (deadline, port') ∧ P deadline port') ↔
      ∃ now clock, port.clock = now :: clock ∧ P (now + timeout) { port with clock } := by
  simp only [deadlineAfter_eq_ok]
  constructor
  · rintro ⟨_, _, ⟨now, clock, hclock, rfl, rfl⟩, h⟩
    exact ⟨now, clock, hclock, h⟩
  · rintro ⟨now, clock, hclock, h⟩
    exact ⟨_, _, ⟨now, clock, hclock, rfl, rfl⟩, h⟩

section Slot

variable [Target] {d : Driver} {cmd : Command} (hd : Reachable d) (hidle : d.state = .idle)

include hd hidle

/-- **The command slot on return.** A call that is started with an idle driver and returns leaves
the slot clear exactly when the command is refused for want of room, or its bytes are written and
the reply is reached before the call gives up. -/
theorem slot_clear_iff :
    (∀ {α : Type} {timeout : Nat} {want : Response → Option (Except Std.Error α)}
        {radio radio' : Std.Radio} {r : Except Std.Error α}, radio.driver = d →
      radio.command cmd timeout want = .ok (r, radio') →
      (SlotClear radio'.driver ↔ Refused d cmd ∨ ∃ now clock, radio.port.clock = now :: clock ∧
        Resolves (Std.arrive (now + timeout)) d cmd { radio.port with clock })) ∧
    (∀ {port : Tokio.Port} {p : Pumped ErrorKind Tokio.Read Tokio.Error Tokio.OwnedResponse},
      Tokio.processJob d port cmd = .ok p →
      (SlotClear p.driver ↔ Refused d cmd ∨ Resolves Tokio.arrive d cmd port)) ∧
    (∀ {ε α : Type} {timeout : Nat} {want : Response → Option (Except (Embassy.Error ε) α)}
        {radio radio' : Embassy.Radio ε} {r : Except (Embassy.Error ε) α}, radio.driver = d →
      radio.command cmd timeout want = .ok (r, radio') →
      (SlotClear radio'.driver ↔ Refused d cmd ∨ ∃ now clock, radio.uart.clock = now :: clock ∧
        Resolves (Embassy.arrive (now + timeout)) d cmd { radio.uart with clock })) := by
  refine ⟨?_, ?_, ?_⟩
  · rintro α timeout want radio radio' r rfl h
    obtain ⟨p, hp, -, rfl⟩ := Std.Radio.command_inv h
    exact (submitThenPump_slot hd hidle Std.turn_arrives hp).trans
      (or_congr_right exists_deadlineAfter)
  · intro port p h
    rw [Tokio.processJob_eq] at h
    rw [submitThenPump_slot hd hidle (fun _ => Tokio.turn_arrives) h]
    simp
  · rintro ε α timeout want radio radio' r rfl h
    obtain ⟨p, hp, -, rfl⟩ := Embassy.Radio.command_inv h
    exact (submitThenPump_slot hd hidle Embassy.turn_arrives hp).trans
      (or_congr_right exists_deadlineAfter)

end Slot

section

attribute [local instance] Target.host

/-- After a ping that is answered the slot is clear. -/
theorem slot_clear_ping : SlotClear (Driver.new.copyLine (utf8 "+OK")) := by
  have hping : Std.Radio.ping ⟨.new, ⟨[.ok ()], [.ok ⟨utf8 "+OK\r\n", by decide⟩], [0, 1]⟩, []⟩ =
      .ok (.ok (), ⟨Driver.new.copyLine (utf8 "+OK"), ⟨[], [], []⟩, []⟩) := by
    decide +kernel
  refine ((@slot_clear_iff _ .new .ping ⟨[], [], rfl⟩ rfl).1 rfl hping).mpr (Or.inr ?_)
  refine ⟨0, [1], rfl, [], rfl, .incomplete rfl rfl ?_⟩
  exact @ReplyReached.settles _ _ _ _ (utf8 "+OK") [] _ (by decide)
    (Or.inr ⟨by decide, rfl, by decide, .ack, rfl, rfl⟩)

/-- After a ping that times out the driver still waits for its reply: the next command is refused as
busy. -/
theorem slot_not_clear : ¬ ∀ (radio radio' : Std.Radio) r, Reachable radio.driver →
    radio.driver.state = .idle → radio.ping = .ok (r, radio') → SlotClear radio'.driver := by
  intro h
  have hping : Std.Radio.ping ⟨.new, ⟨[.ok ()], [.error .timedOut], [0, Std.defaultTimeout]⟩, []⟩ =
      .ok (.error .timeout, ⟨{ Driver.new with state := .awaiting .ack }, ⟨[], [], []⟩, []⟩) := by
    decide +kernel
  have hreach : Reachable Driver.new := ⟨[], [], rfl⟩
  have hclear := h _ _ _ hreach rfl hping
  cases hclear.1

end

end Rylr998
