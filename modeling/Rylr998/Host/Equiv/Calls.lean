import Rylr998.Host.Equiv.Slot

/-!
# The calls of the driver

The calls of the driver that the loop over `Driver::poll` makes (`pollCalls`), those of the loop
around it (`pumpCalls`), and those of a submitted command (`submitCalls`), of which the command
methods of the blocking radio and of the one for microcontrollers are instances
(`Std.Radio.commandCalls`, `Embassy.Radio.commandCalls`). They lead from the driver before to the
driver after, and the events of the loop are the ones that they return.

They are functions of what the loops are given, and not relations, so that the log of a session and
of a run of the tool is a value that can be computed and compared. They follow the loops case by
case, and `pollLoop_calls` and `pump_calls` say that they describe them.
-/

namespace Rylr998

/-- The calls lead from `d` to `d'`. -/
def Driver.Calls [Target] (d : Driver) (calls : List Call) (d' : Driver) : Prop :=
  ∃ ops, Component.run Driver.step d ops = .ok (calls, d')

section

variable [Target] {d d₁ d' : Driver} {calls calls' : List Call}

theorem Driver.Calls.nil : d.Calls [] d := ⟨[], rfl⟩

theorem Driver.Calls.append (h : d.Calls calls d₁) (h' : d₁.Calls calls' d') :
    d.Calls (calls ++ calls') d' := by
  obtain ⟨ops, h⟩ := h
  obtain ⟨ops', h'⟩ := h'
  refine ⟨ops ++ ops', ?_⟩
  rw [Component.run_append h, h']
  rfl

theorem Driver.Calls.cons {op : Op} {c : Call} (h : d.step op = .ok (c, d₁))
    (h' : d₁.Calls calls d') : d.Calls (c :: calls) d' := by
  obtain ⟨ops, h'⟩ := h'
  refine ⟨op :: ops, ?_⟩
  rw [Component.run_cons h, h']
  rfl

theorem Driver.Calls.poll {p : Poll} (h : d.poll = .ok (p, d₁)) (h' : d₁.Calls calls d') :
    d.Calls (.poll p :: calls) d' :=
  .cons (Driver.step_poll_iff.mpr ⟨p, rfl, h⟩) h'

theorem Driver.Calls.unique (h : d.Calls calls d₁) (h' : d.Calls calls d') : d₁ = d' := by
  obtain ⟨ops, h⟩ := h
  obtain ⟨ops', h'⟩ := h'
  induction calls generalizing d ops ops' with
  | nil =>
    obtain rfl : ops = [] := List.length_eq_zero_iff.mp (Component.run_length h).symm
    obtain rfl : ops' = [] := List.length_eq_zero_iff.mp (Component.run_length h').symm
    cases h.symm.trans h'
    rfl
  | cons c calls ih =>
    cases ops with
    | nil => cases h
    | cons op ops =>
      cases ops' with
      | nil => cases h'
      | cons op' ops' =>
        obtain ⟨o, e₁, os, hstep, hrun, hos⟩ := Component.run_cons_inv h
        obtain ⟨o', e₂, os', hstep', hrun', hos'⟩ := Component.run_cons_inv h'
        obtain ⟨rfl, rfl⟩ := List.cons.inj hos
        obtain ⟨rfl, rfl⟩ := List.cons.inj hos'
        obtain rfl := (Driver.op_of_step hstep).symm.trans (Driver.op_of_step hstep')
        cases hstep.symm.trans hstep'
        exact ih ops hrun ops' hrun'

end

/-! ### The loop over `Driver::poll` -/

/-- The calls that `pollLoop` makes. -/
def pollCalls [Target] {ω α : Type} (want : Response → Option α) (d : Driver)
    (writes : List (Except ω Unit)) : List Call :=
  match h : d.poll with
  | .error _ => []
  | .ok (.idle, _) => [.poll .idle]
  | .ok (.event e, d') =>
    have := Driver.poll_decreases h nofun
    .poll (.event e) :: pollCalls want d' writes
  | .ok (.response r, d') =>
    have := Driver.poll_decreases h nofun
    .poll (.response r) :: if (want r).isSome then [] else pollCalls want d' writes
  | .ok (.needTx bytes, d') =>
    .poll (.needTx bytes) ::
      match writes with
      | .ok () :: writes =>
        match ha : d'.ackTx bytes.length with
        | .error _ => []
        | .ok d'' =>
          have := Driver.ack_decreases h ha
          .ackTx bytes.length :: pollCalls want d'' writes
      | _ => []
termination_by d.tx.len - d.txInFlight + d.rx.len

section

variable [Target] {ω α : Type} {want : Response → Option α} {d d' : Driver}
  {writes : List (Except ω Unit)}

theorem pollCalls_of_idle (h : d.poll = .ok (.idle, d')) :
    pollCalls want d writes = [.poll .idle] := by
  rw [pollCalls]
  split <;> simp_all

theorem pollCalls_of_event {e : Event} (h : d.poll = .ok (.event e, d')) :
    pollCalls want d writes = .poll (.event e) :: pollCalls want d' writes := by
  rw [pollCalls]
  split <;> simp_all

theorem pollCalls_of_response {r : Response} (h : d.poll = .ok (.response r, d')) :
    pollCalls want d writes =
      .poll (.response r) :: if (want r).isSome then [] else pollCalls want d' writes := by
  rw [pollCalls]
  split <;> simp_all

theorem pollCalls_of_unwritten {bytes : List UInt8} {e : ω} (h : d.poll = .ok (.needTx bytes, d')) :
    pollCalls want d (.error e :: writes) = [.poll (.needTx bytes)] := by
  rw [pollCalls]
  split <;> simp_all

theorem pollCalls_of_written {bytes : List UInt8} {d'' : Driver}
    (h : d.poll = .ok (.needTx bytes, d')) (hack : d'.ackTx bytes.length = .ok d'') :
    pollCalls want d (.ok () :: writes) =
      .poll (.needTx bytes) :: .ackTx bytes.length :: pollCalls want d'' writes := by
  rw [pollCalls]
  split
  case h_5 hp =>
    rw [h] at hp
    cases hp
    dsimp only
    split
    · next ha => cases ha.symm.trans hack
    · next ha => cases ha.symm.trans hack; rfl
  all_goals simp_all

end

theorem pollLoop_calls [Target] {ω α : Type} {want : Response → Option α} {d : Driver}
    {writes : List (Except ω Unit)} {r : Looped ω α} (h : pollLoop want d writes = .ok r) :
    d.Calls (pollCalls want d writes) r.driver ∧
      (pollCalls want d writes).filterMap Call.event? = r.events := by
  induction d, writes using pollLoop.induct want generalizing r with
  | case1 d writes f hpoll =>
    rw [pollLoop_of_error hpoll] at h
    cases h
  | case2 d writes d' hpoll =>
    rw [pollLoop_of_idle hpoll] at h
    cases h
    rw [pollCalls_of_idle hpoll]
    exact ⟨.poll hpoll .nil, rfl⟩
  | case3 d writes e d' hpoll hlt ih =>
    rw [pollLoop_of_event hpoll] at h
    obtain ⟨r, hloop, rfl⟩ := Except.map_eq_ok.mp h
    obtain ⟨hcalls, hevents⟩ := ih hloop
    rw [pollCalls_of_event hpoll]
    exact ⟨.poll hpoll hcalls, congrArg (e :: ·) hevents⟩
  | case4 d writes r d' hpoll hlt out hout =>
    rw [pollLoop_of_response hpoll, hout] at h
    cases h
    rw [pollCalls_of_response hpoll, hout]
    exact ⟨.poll hpoll .nil, rfl⟩
  | case5 d writes r d' hpoll hlt hout ih =>
    rw [pollLoop_of_response hpoll, hout] at h
    obtain ⟨hcalls, hevents⟩ := ih h
    rw [pollCalls_of_response hpoll, hout]
    exact ⟨.poll hpoll hcalls, hevents⟩
  | case6 d bytes d' hpoll =>
    rw [pollLoop_of_blocked hpoll] at h
    cases h
  | case7 d bytes d' hpoll e writes =>
    rw [pollLoop_of_unwritten hpoll] at h
    cases h
    rw [pollCalls_of_unwritten hpoll]
    exact ⟨.poll hpoll .nil, rfl⟩
  | case8 d bytes d' hpoll writes f hack =>
    rw [pollLoop_of_written hpoll, hack] at h
    cases h
  | case9 d bytes d' hpoll writes d'' hack hlt ih =>
    rw [pollLoop_of_written hpoll, hack] at h
    obtain ⟨hcalls, hevents⟩ := ih h
    rw [pollCalls_of_written hpoll hack]
    have hstep : d'.step (.ackTx bytes.length) = .ok (.ackTx bytes.length, d'') :=
      Except.map_eq_ok.mpr ⟨d'', hack, rfl⟩
    exact ⟨.poll hpoll (.cons hstep hcalls), hevents⟩

/-! ### The loop around it -/

/-- The calls that `pump` makes, when `turnCalls` are those of its turns. -/
def pumpCalls [Target] {ω ρ ε α : Type} (turn : Turn ω ρ ε)
    (turnCalls : Driver → Port ω ρ → List Call) (want : Response → Option (Except ε α)) (d : Driver)
    (port : Port ω ρ) : List Call :=
  pollCalls want d port.writes ++
    match pollLoop want d port.writes with
    | .ok ⟨.idle, _, d, writes⟩ =>
      turnCalls d { port with writes } ++
        match ht : turn.run d { port with writes } with
        | .ok (.ok (), d, port') =>
          have := turn.reads_lt ht
          pumpCalls turn turnCalls want d port'
        | _ => []
    | _ => []
termination_by port.reads.length

/-- `turnCalls` are the calls of a turn. None of them is a poll. -/
structure Turn.Makes [Target] {ω ρ ε : Type} (turn : Turn ω ρ ε)
    (turnCalls : Driver → Port ω ρ → List Call) : Prop where
  calls : ∀ {d d' port port' r}, turn.run d port = .ok (r, d', port') →
    d.Calls (turnCalls d port) d'
  poll? : ∀ d port, ∀ c ∈ turnCalls d port, c.poll? = none

section Pump

variable [Target] {ω ρ ε α : Type} {turn : Turn ω ρ ε} {turnCalls : Driver → Port ω ρ → List Call}
  {io : ω → ε} {want : Response → Option (Except ε α)} {d d' : Driver} {port port' : Port ω ρ}
  {r : Looped ω (Except ε α)}

theorem pumpCalls_of_stop (hloop : pollLoop want d port.writes = .ok r) (hstop : r.stop ≠ .idle) :
    pumpCalls turn turnCalls want d port = pollCalls want d port.writes := by
  obtain ⟨stop, events, d₁, writes⟩ := r
  rw [pumpCalls, hloop]
  cases stop with
  | idle => exact absurd rfl hstop
  | wanted | failed => exact List.append_nil _

theorem pumpCalls_of_giveUp {e : ε} (hloop : pollLoop want d port.writes = .ok r)
    (hstop : r.stop = .idle)
    (hturn : turn.run r.driver { port with writes := r.writes } = .ok (.error e, d', port')) :
    pumpCalls turn turnCalls want d port =
      pollCalls want d port.writes ++ turnCalls r.driver { port with writes := r.writes } := by
  obtain ⟨stop, events, d₁, writes⟩ := r
  obtain rfl : stop = .idle := hstop
  rw [pumpCalls, hloop]
  dsimp only
  split
  · next ht => cases hturn.symm.trans ht
  · rw [List.append_nil]

theorem pumpCalls_of_turn (hloop : pollLoop want d port.writes = .ok r) (hstop : r.stop = .idle)
    (hturn : turn.run r.driver { port with writes := r.writes } = .ok (.ok (), d', port')) :
    pumpCalls turn turnCalls want d port =
      pollCalls want d port.writes ++ (turnCalls r.driver { port with writes := r.writes } ++
        pumpCalls turn turnCalls want d' port') := by
  obtain ⟨stop, events, d₁, writes⟩ := r
  obtain rfl : stop = .idle := hstop
  rw [pumpCalls, hloop]
  dsimp only
  split
  · next ht => cases hturn.symm.trans ht; rfl
  · next ht => exact absurd hturn (ht _ _)

/-- The calls of `pump` lead to the driver that it returns, and its events are theirs. -/
theorem pump_calls (hmakes : turn.Makes turnCalls) {p : Pumped ω ρ ε α}
    (h : pump turn io want d port = .ok p) :
    d.Calls (pumpCalls turn turnCalls want d port) p.driver ∧
      (pumpCalls turn turnCalls want d port).filterMap Call.event? = p.events := by
  induction hlen : port.reads.length using Nat.strong_induction_on generalizing d port p with
  | _ n ih =>
  subst hlen
  have hnone (d : Driver) (port : Port ω ρ) :
      (turnCalls d port).filterMap Call.event? = [] := by
    rw [List.filterMap_eq_nil_iff]
    intro c hc
    rw [Call.event?, hmakes.poll? d port c hc]
    rfl
  obtain ⟨r, hloop, hcase⟩ := pump_inv h
  obtain ⟨hcalls, hevents⟩ := pollLoop_calls hloop
  rcases hcase with ⟨out, hstop, rfl⟩ | ⟨e, hstop, rfl⟩ | ⟨hstop, e, d', port', hturn, rfl⟩ |
    ⟨hstop, d', port', p', hturn, hrec, rfl⟩
  · rw [pumpCalls_of_stop hloop (by simp [hstop])]
    exact ⟨hcalls, hevents⟩
  · rw [pumpCalls_of_stop hloop (by simp [hstop])]
    exact ⟨hcalls, hevents⟩
  · rw [pumpCalls_of_giveUp hloop hstop hturn]
    refine ⟨hcalls.append (hmakes.calls hturn), ?_⟩
    rw [List.filterMap_append, hevents, hnone, List.append_nil]
  · have hlt := turn.reads_lt hturn
    obtain ⟨hcalls', hevents'⟩ := ih _ hlt hrec rfl
    rw [pumpCalls_of_turn hloop hstop hturn]
    refine ⟨hcalls.append ((hmakes.calls hturn).append hcalls'), ?_⟩
    rw [List.filterMap_append, List.filterMap_append, hevents, hnone, hevents', List.nil_append]

end Pump

/-! ### A submitted command -/

/-- The calls that `submitThenPump` makes, when `turnCalls` are those of its turns. -/
def submitCalls [Target] {δ ω ρ ε α : Type} (turn : δ → Turn ω ρ ε)
    (turnCalls : δ → Driver → Port ω ρ → List Call) (start : Port ω ρ → Except Halt (δ × Port ω ρ))
    (cmd : Command) (want : Response → Option (Except ε α)) (d : Driver) (port : Port ω ρ) :
    List Call :=
  match d.submit cmd, start port with
  | .ok (.error e, _), _ => [.submit cmd (.error e)]
  | .ok (.ok (), d), .ok (deadline, port) =>
    .submit cmd (.ok ()) :: pumpCalls (turn deadline) (turnCalls deadline) want d port
  | _, _ => []

section Submit

variable [Target] {δ ω ρ ε α : Type} {turn : δ → Turn ω ρ ε}
  {turnCalls : δ → Driver → Port ω ρ → List Call} {start : Port ω ρ → Except Halt (δ × Port ω ρ)}
  {cmd : Command} {want : Response → Option (Except ε α)} {d d' : Driver} {port port' : Port ω ρ}

theorem submitCalls_of_refused {e : Error} (hsubmit : d.submit cmd = .ok (.error e, d')) :
    submitCalls turn turnCalls start cmd want d port = [.submit cmd (.error e)] := by
  rw [submitCalls, hsubmit]

theorem submitCalls_of_accepted {deadline : δ} (hsubmit : d.submit cmd = .ok (.ok (), d'))
    (hstart : start port = .ok (deadline, port')) :
    submitCalls turn turnCalls start cmd want d port =
      .submit cmd (.ok ()) :: pumpCalls (turn deadline) (turnCalls deadline) want d' port' := by
  rw [submitCalls, hsubmit, hstart]

/-- The calls of a submitted command lead to the driver that it leaves, and its events are
theirs. -/
theorem submitThenPump_calls {io : ω → ε} {core : Error → ε}
    (hmakes : ∀ deadline, (turn deadline).Makes (turnCalls deadline)) {p : Pumped ω ρ ε α}
    (h : submitThenPump turn start io core cmd want d port = .ok p) :
    d.Calls (submitCalls turn turnCalls start cmd want d port) p.driver ∧
      (submitCalls turn turnCalls start cmd want d port).filterMap Call.event? = p.events := by
  have hstep {res : Except Error Unit} {d' : Driver} (hsubmit : d.submit cmd = .ok (res, d')) :
      d.step (.submit cmd) = .ok (.submit cmd res, d') :=
    Except.map_eq_ok.mpr ⟨_, hsubmit, rfl⟩
  rcases submitThenPump_inv h with ⟨e, d', hsubmit, rfl⟩ |
    ⟨d', deadline, port', hsubmit, hstart, hp⟩
  · rw [submitCalls_of_refused hsubmit]
    exact ⟨.cons (hstep hsubmit) .nil, rfl⟩
  · obtain ⟨hcalls, hevents⟩ := pump_calls (hmakes deadline) hp
    rw [submitCalls_of_accepted hsubmit hstart]
    exact ⟨.cons (hstep hsubmit) hcalls, hevents⟩

end Submit

/-! ### The blocking radio -/

namespace Std

variable [Target]

/-- The calls of `readOnce`: what is read is pushed. -/
def readCalls (d : Driver) (port : Port) : List Call :=
  match port.reads with
  | .ok bytes :: _ =>
    match d.pushRx bytes with
    | .ok (r, _) => [.pushRx bytes r]
    | .error _ => []
  | _ => []

theorem turn_makes (deadline : Nat) : (turn deadline).Makes readCalls where
  calls := by
    intro d d' port port' r h
    have h : readOnce deadline d port = .ok (r, d', port') := h
    unfold readOnce at h
    obtain ⟨⟨read, reads⟩, hread, h⟩ := Except.bind_eq_ok.mp h
    unfold readCalls
    rw [answer_eq_ok.mp hread]
    rcases read with e | bytes
    · cases e with
      | wouldBlock | timedOut =>
        obtain rfl := checkDeadline_inv h
        exact .nil
      | other code =>
        cases h
        exact .nil
    · obtain ⟨⟨res, d₁⟩, hpush, h⟩ := Except.bind_eq_ok.mp h
      have hpush := onDriver_eq_ok.mp hpush
      have hstep : d.step (.pushRx bytes) = .ok (.pushRx bytes res, d₁) :=
        Except.map_eq_ok.mpr ⟨_, hpush, rfl⟩
      dsimp only
      rw [hpush]
      rcases res with e | n
      · cases h
        exact .cons hstep .nil
      · obtain rfl := checkDeadline_inv h
        exact .cons hstep .nil
  poll? := by
    intro d port c hc
    unfold readCalls at hc
    split at hc
    · split at hc
      · rw [List.mem_singleton.mp hc]
        rfl
      · cases hc
    · cases hc

/-- A call of a method: what every command method does, or `next_event`. -/
inductive Method : Type 1 where
  | command (α : Type) (cmd : Command) (timeout : Nat) (want : Response → Option (Except Error α))
  | nextEvent (timeout : Nat)

/-- What a call of a method has done. -/
structure Done where
  /-- The event that it returns. -/
  event : Option Event
  /-- The calls of the driver that it has made. -/
  calls : List Call

namespace Radio

/-- The calls of `pumpUntil`. -/
def pumpUntilCalls {α : Type} (radio : Radio) (deadline : Nat)
    (want : Response → Option (Except Error α)) : List Call :=
  pumpCalls (turn deadline) readCalls want radio.driver radio.port

/-- The calls of `command`. -/
def commandCalls {α : Type} (radio : Radio) (cmd : Command) (timeout : Nat)
    (want : Response → Option (Except Error α)) : List Call :=
  submitCalls turn (fun _ => readCalls) (deadlineAfter timeout) cmd want radio.driver radio.port

/-- The calls of `nextEvent`. -/
def nextEventCalls (radio : Radio) (timeout : Nat) : List Call :=
  match radio.events, radio.port.clock with
  | [], now :: clock =>
    pumpUntilCalls { radio with port := { radio.port with clock } } (now + timeout)
      fun _ => (none : Option (Except Error Unit))
  | _, _ => []

/-- Call a method. -/
def perform (radio : Radio) : Method → Except Halt (Done × Radio)
  | .command _ cmd timeout want => do
    let (_, radio') ← radio.command cmd timeout want
    return (⟨none, radio.commandCalls cmd timeout want⟩, radio')
  | .nextEvent timeout => do
    let (r, radio') ← radio.nextEvent timeout
    return (⟨r.toOption, radio.nextEventCalls timeout⟩, radio')

variable {radio radio' : Radio}

theorem pumpUntil_inv {α : Type} {deadline : Nat} {want : Response → Option (Except Error α)}
    {r : Except Error α} (h : radio.pumpUntil deadline want = .ok (r, radio')) :
    ∃ p, pump (turn deadline) .io want radio.driver radio.port = .ok p ∧ r = p.result ∧
      radio' = ⟨p.driver, p.port, radio.events ++ p.events⟩ := by
  unfold pumpUntil at h
  obtain ⟨p, hp, h⟩ := Except.bind_eq_ok.mp h
  cases h
  exact ⟨p, hp, rfl, rfl⟩

theorem command_calls {α : Type} {cmd : Command} {timeout : Nat}
    {want : Response → Option (Except Error α)} {r : Except Error α}
    (h : radio.command cmd timeout want = .ok (r, radio')) :
    radio.driver.Calls (radio.commandCalls cmd timeout want) radio'.driver ∧
      radio.events ++ (radio.commandCalls cmd timeout want).filterMap Call.event? =
        radio'.events := by
  obtain ⟨p, hp, -, rfl⟩ := command_inv h
  obtain ⟨hcalls, hevents⟩ := submitThenPump_calls turn_makes hp
  exact ⟨hcalls, congrArg (radio.events ++ ·) hevents⟩

theorem nextEvent_calls {timeout : Nat} {r : Except Error Event}
    (h : radio.nextEvent timeout = .ok (r, radio')) :
    radio.driver.Calls (radio.nextEventCalls timeout) radio'.driver ∧
      radio.events ++ (radio.nextEventCalls timeout).filterMap Call.event? =
        r.toOption.toList ++ radio'.events := by
  obtain ⟨driver, port, events⟩ := radio
  unfold nextEvent at h
  cases events with
  | cons e events =>
    cases h
    exact ⟨.nil, List.append_nil _⟩
  | nil =>
    obtain ⟨⟨now, clock⟩, hclock, h⟩ := Except.bind_eq_ok.mp h
    obtain ⟨⟨res, radio₁⟩, hpump, h⟩ := Except.bind_eq_ok.mp h
    obtain ⟨⟨result, queue, driver₁, port₁⟩, hp, -, rfl⟩ := pumpUntil_inv hpump
    obtain ⟨hcalls, hevents⟩ := pump_calls (turn_makes (now + timeout)) hp
    have hclock : port.clock = now :: clock := answer_eq_ok.mp hclock
    simp only [nextEventCalls, hclock]
    cases queue with
    | cons e queue =>
      cases h
      exact ⟨hcalls, hevents⟩
    | nil =>
      cases h
      exact ⟨hcalls, hevents⟩

end Radio

end Std

/-! ### The radio for microcontrollers -/

namespace Embassy

variable {ε : Type}

/-- The calls of `readOnce`: what is read is pushed. -/
def readCalls (deadline : Nat) (d : Driver) (port : Port ε) : List Call :=
  match port.clock, port.reads with
  | now :: _, .ok bytes :: _ =>
    if deadline ≤ now then []
    else
      match d.pushRx bytes with
      | .ok (r, _) => [.pushRx bytes r]
      | .error _ => []
  | _, _ => []

theorem readCalls_pushes (deadline : Nat) (d : Driver) (port : Port ε) :
    ∀ c ∈ readCalls deadline d port, ∃ bytes r, c = .pushRx bytes r := by
  intro c hc
  unfold readCalls at hc
  split at hc
  · split_ifs at hc
    · cases hc
    · split at hc
      · exact ⟨_, _, List.mem_singleton.mp hc⟩
      · cases hc
  · cases hc

theorem turn_makes [Target] (deadline : Nat) :
    (turn deadline : Turn ε (Read ε) (Error ε)).Makes (readCalls deadline) where
  calls := by
    intro d d' port port' r h
    have h : readOnce deadline d port = .ok (r, d', port') := h
    unfold readOnce at h
    obtain ⟨⟨now, clock⟩, hclock, h⟩ := Except.bind_eq_ok.mp h
    change (if deadline - now = 0 then _ else answer port.reads >>= _) = _ at h
    unfold readCalls
    rw [answer_eq_ok.mp hclock]
    by_cases hnow : deadline ≤ now
    · rw [if_pos (by omega)] at h
      cases h
      cases port.reads with
      | nil => exact .nil
      | cons read reads =>
        cases read with
        | ok bytes =>
          dsimp only
          rw [if_pos hnow]
          exact .nil
        | elapsed | error => exact .nil
    · rw [if_neg (by omega)] at h
      obtain ⟨⟨read, reads⟩, hread, h⟩ := Except.bind_eq_ok.mp h
      rw [answer_eq_ok.mp hread]
      cases read with
      | elapsed | error =>
        cases h
        exact .nil
      | ok bytes =>
        obtain ⟨⟨res, d₁⟩, hpush, h⟩ := Except.bind_eq_ok.mp h
        have hpush := onDriver_eq_ok.mp hpush
        have hstep : d.step (.pushRx bytes) = .ok (.pushRx bytes res, d₁) :=
          Except.map_eq_ok.mpr ⟨_, hpush, rfl⟩
        dsimp only
        rw [if_neg hnow, hpush]
        rcases res with e | n <;> cases h <;> exact .cons hstep .nil
  poll? := by
    intro d port c hc
    obtain ⟨bytes, r, rfl⟩ := readCalls_pushes deadline d port c hc
    rfl

namespace Radio

variable [Target]

/-- The calls of `command`. -/
def commandCalls {α : Type} (radio : Radio ε) (cmd : Command) (timeout : Nat)
    (want : Response → Option (Except (Error ε) α)) : List Call :=
  submitCalls turn readCalls (deadlineAfter timeout) cmd want radio.driver radio.uart

/-- The events that come while a command method runs are logged. -/
theorem command_calls {α : Type} {cmd : Command} {timeout : Nat}
    {want : Response → Option (Except (Error ε) α)} {radio radio' : Radio ε}
    {r : Except (Error ε) α} (h : radio.command cmd timeout want = .ok (r, radio')) :
    radio.driver.Calls (radio.commandCalls cmd timeout want) radio'.driver ∧
      radio'.log = radio.log ++ (radio.commandCalls cmd timeout want).filterMap Call.event? := by
  obtain ⟨p, hp, -, rfl⟩ := command_inv h
  obtain ⟨hcalls, hevents⟩ := submitThenPump_calls turn_makes hp
  exact ⟨hcalls, congrArg (radio.log ++ ·) hevents.symm⟩

end Radio

end Embassy

end Rylr998
