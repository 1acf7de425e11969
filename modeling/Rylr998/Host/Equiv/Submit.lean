import Rylr998.Host.Embassy
import Rylr998.Host.Std
import Rylr998.Host.Tokio

/-!
# Submit, then pump

The command methods of the three crates are one function (`submitThenPump`): the command is
submitted, a refusal is returned, and otherwise the call pumps until a deadline. The crates differ
in their turns, in their errors and in where the deadline comes from (`deadlineAfter`; the deadline
of a job is kept by the runtime). What holds of every command method is proved of the one function.
-/

namespace Rylr998

/-- Submit the command. If the driver accepts it, find the deadline, and pump with the turns that
end at it. -/
def submitThenPump [Target] {δ ω ρ ε α : Type} (turn : δ → Turn ω ρ ε)
    (start : Port ω ρ → Except Halt (δ × Port ω ρ)) (io : ω → ε) (core : Error → ε) (cmd : Command)
    (want : Response → Option (Except ε α)) (d : Driver) (port : Port ω ρ) :
    Except Halt (Pumped ω ρ ε α) := do
  match ← onDriver (d.submit cmd) with
  | (.error e, d) => return ⟨.error (core e), [], d, port⟩
  | (.ok (), d) =>
    let (deadline, port) ← start port
    pump (turn deadline) io want d port

/-- Look at the clock: the deadline is `timeout` away. -/
def deadlineAfter {ω ρ : Type} (timeout : Nat) (port : Port ω ρ) :
    Except Halt (Nat × Port ω ρ) := do
  let (now, clock) ← answer port.clock
  return (now + timeout, { port with clock })

theorem deadlineAfter_eq_ok {ω ρ : Type} {timeout deadline : Nat} {port port' : Port ω ρ} :
    deadlineAfter timeout port = .ok (deadline, port') ↔ ∃ now clock, port.clock = now :: clock ∧
      deadline = now + timeout ∧ port' = { port with clock } := by
  obtain ⟨writes, reads, clock⟩ := port
  cases clock with
  | nil =>
    refine iff_of_false (fun h => by cases h) ?_
    rintro ⟨now, clock, h, -⟩
    cases h
  | cons now clock =>
    constructor
    · intro h
      cases h
      exact ⟨now, clock, rfl, rfl, rfl⟩
    · rintro ⟨_, _, h, rfl, rfl⟩
      cases h
      rfl

theorem deadlineAfter_of_clock {ω ρ : Type} {port : Port ω ρ} {now : Nat} {clock : List Nat}
    (h : port.clock = now :: clock) (timeout : Nat) :
    deadlineAfter timeout port = .ok (now + timeout, { port with clock }) :=
  deadlineAfter_eq_ok.mpr ⟨now, clock, h, rfl, rfl⟩

section

variable [Target] {δ ω ρ ε α : Type} {turn : δ → Turn ω ρ ε}
  {start : Port ω ρ → Except Halt (δ × Port ω ρ)} {io : ω → ε} {core : Error → ε} {cmd : Command}
  {want : Response → Option (Except ε α)} {d d' : Driver} {port port' : Port ω ρ}

theorem submitThenPump_refused {e : Error} (hsubmit : d.submit cmd = .ok (.error e, d')) :
    submitThenPump turn start io core cmd want d port = .ok ⟨.error (core e), [], d', port⟩ := by
  rw [submitThenPump, hsubmit]
  rfl

theorem submitThenPump_accepted {deadline : δ} (hsubmit : d.submit cmd = .ok (.ok (), d'))
    (hstart : start port = .ok (deadline, port')) :
    submitThenPump turn start io core cmd want d port =
      pump (turn deadline) io want d' port' := by
  rw [submitThenPump, hsubmit]
  show (start port >>= _) = _
  rw [hstart]
  rfl

/-- What the function can do. -/
theorem submitThenPump_inv {p : Pumped ω ρ ε α}
    (h : submitThenPump turn start io core cmd want d port = .ok p) :
    (∃ e d', d.submit cmd = .ok (.error e, d') ∧ p = ⟨.error (core e), [], d', port⟩) ∨
      ∃ d' deadline port', d.submit cmd = .ok (.ok (), d') ∧ start port = .ok (deadline, port') ∧
        pump (turn deadline) io want d' port' = .ok p := by
  unfold submitThenPump at h
  obtain ⟨⟨res, d'⟩, hsubmit, h⟩ := Except.bind_eq_ok.mp h
  have hsubmit := onDriver_eq_ok.mp hsubmit
  rcases res with e | ⟨⟩
  · cases h
    exact Or.inl ⟨e, d', hsubmit, rfl⟩
  · obtain ⟨⟨deadline, port'⟩, hstart, h⟩ := Except.bind_eq_ok.mp h
    exact Or.inr ⟨d', deadline, port', hsubmit, hstart, h⟩

end

/-! ### The crates -/

theorem Std.Radio.command_eq [Target] {α : Type} (radio : Radio) (cmd : Command) (timeout : Nat)
    (want : Response → Option (Except Error α)) :
    radio.command cmd timeout want =
      (submitThenPump turn (deadlineAfter timeout) .io .core cmd want radio.driver radio.port).map
        fun p => (p.result, ⟨p.driver, p.port, radio.events ++ p.events⟩) := by
  obtain ⟨d, port, events⟩ := radio
  unfold command submitThenPump
  rcases onDriver (d.submit cmd) with halt | ⟨e | ⟨⟩, d'⟩
  · rfl
  · show Except.ok (_, Radio.mk d' port events) = .ok (_, Radio.mk d' port (events ++ []))
    rw [List.append_nil]
  · obtain ⟨writes, reads, _ | ⟨now, clock⟩⟩ := port
    · rfl
    · show pumpUntil _ _ _ = Except.map _ (pump (turn (now + timeout)) _ _ _ _)
      unfold pumpUntil
      cases pump (turn (now + timeout)) .io want d' ⟨writes, reads, clock⟩ <;> rfl

theorem Embassy.Radio.command_eq [Target] {ε α : Type} (radio : Radio ε) (cmd : Command)
    (timeout : Nat) (want : Response → Option (Except (Error ε) α)) :
    radio.command cmd timeout want =
      (submitThenPump turn (deadlineAfter timeout) .io .core cmd want radio.driver radio.uart).map
        fun p => (p.result, ⟨p.driver, p.port, radio.log ++ p.events⟩) := by
  obtain ⟨d, uart, log⟩ := radio
  unfold command submitThenPump
  rcases onDriver (d.submit cmd) with halt | ⟨e | ⟨⟩, d'⟩
  · rfl
  · show Except.ok (_, Radio.mk d' uart log) = .ok (_, Radio.mk d' uart (log ++ []))
    rw [List.append_nil]
  · obtain ⟨writes, reads, _ | ⟨now, clock⟩⟩ := uart
    · rfl
    · show pumpUntil _ _ _ = Except.map _ (pump (turn (now + timeout)) _ _ _ _)
      unfold pumpUntil
      cases pump (turn (now + timeout)) .io want d' ⟨writes, reads, clock⟩ <;> rfl

/-- The deadline of a job is in the answers of `timeout_at`. -/
theorem Tokio.processJob_eq [Target] (d : Driver) (port : Port) (cmd : OwnedCommand) :
    processJob d port cmd = submitThenPump (fun _ : Unit => turn) (fun port => .ok ((), port)) .io
      .core cmd (fun r => some (.ok r)) d port := by
  unfold processJob submitThenPump
  rcases onDriver (d.submit cmd) with halt | ⟨e | ⟨⟩, d'⟩ <;> rfl

/-- A command method of the blocking radio that returns. -/
theorem Std.Radio.command_inv [Target] {α : Type} {radio radio' : Radio} {cmd : Command}
    {timeout : Nat} {want : Response → Option (Except Error α)} {r : Except Error α}
    (h : radio.command cmd timeout want = .ok (r, radio')) :
    ∃ p, submitThenPump turn (deadlineAfter timeout) .io .core cmd want radio.driver radio.port =
        .ok p ∧ r = p.result ∧ radio' = ⟨p.driver, p.port, radio.events ++ p.events⟩ := by
  rw [command_eq] at h
  obtain ⟨p, hp, h⟩ := Except.map_eq_ok.mp h
  cases h
  exact ⟨p, hp, rfl, rfl⟩

/-- A command method of the radio for microcontrollers that returns. -/
theorem Embassy.Radio.command_inv [Target] {ε α : Type} {radio radio' : Radio ε} {cmd : Command}
    {timeout : Nat} {want : Response → Option (Except (Error ε) α)} {r : Except (Error ε) α}
    (h : radio.command cmd timeout want = .ok (r, radio')) :
    ∃ p, submitThenPump turn (deadlineAfter timeout) .io .core cmd want radio.driver radio.uart =
        .ok p ∧ r = p.result ∧ radio' = ⟨p.driver, p.port, radio.log ++ p.events⟩ := by
  rw [command_eq] at h
  obtain ⟨p, hp, h⟩ := Except.map_eq_ok.mp h
  cases h
  exact ⟨p, hp, rfl, rfl⟩

end Rylr998
