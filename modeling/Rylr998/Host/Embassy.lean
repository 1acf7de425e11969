import Rylr998.Host.Pump

/-!
# The radio for microcontrollers

`rylr998_embassy::Radio`. A command method submits one command and pumps until its response has come
or the deadline has passed. `next_event` pumps and hands the events to a handler. Times are in
ticks, of which there are `tickHz` in a second.
-/

namespace Rylr998.Embassy

/-- `rylr998_embassy::Error` -/
inductive Error (ε : Type) where
  | core (e : Rylr998.Error)
  | io (e : ε)
  | timeout
  | radio (code : UInt8)
  deriving DecidableEq

/-- What `with_timeout(remaining, uart.read(&mut buf))` returns. -/
inductive Read (ε : Type) where
  /-- The time ran out first. -/
  | elapsed
  | ok (bytes : Chunk)
  | error (e : ε)

/-- The answers of `uart` and of `Instant::now()`. -/
abbrev Port (ε : Type) : Type := Rylr998.Port ε (Read ε)

/-- `DEFAULT_TIMEOUT` -/
def defaultTimeout (tickHz : Nat) : Nat := tickHz

/-- `FACTORY_RESET_TIMEOUT` -/
def factoryResetTimeout (tickHz : Nat) : Nat := 2 * tickHz

section

variable {ε α : Type}

/-- `wait_ok` -/
def waitOk : Response → Option (Except (Error ε) Unit)
  | .ok => some (.ok ())
  | .err n => some (.error (.radio n))
  | _ => none

/-- The closure of a query: it waits for the value that `value` finds in a response. -/
def waitValue (value : Response → Option α) (r : Response) : Option (Except (Error ε) α) :=
  match value r, r with
  | some a, _ => some (.ok a)
  | none, .err n => some (.error (.radio n))
  | none, _ => none

/-- The closure of `Radio::cpin`: the password goes into a `heapless::String<8>`. -/
def waitCpin : Response → Option (Except (Error ε) String)
  | .cpin s => if s.utf8ByteSize ≤ 8 then some (.ok s) else some (.error (.core .parse))
  | .err n => some (.error (.radio n))
  | _ => none

/-! ### The loop -/

/-- What `Radio::pump_until` does between two loops over `Driver::poll`. -/
def readOnce (deadline : Nat) (d : Driver) (port : Port ε) :
    Except Halt (Except (Error ε) Unit × Driver × Port ε) := do
  let (now, clock) ← answer port.clock
  let port := { port with clock }
  let remaining := deadline - now
  if remaining = 0 then
    return (.error .timeout, d, port)
  let (read, reads) ← answer port.reads
  let port := { port with reads }
  match read with
  | .ok bytes =>
    match ← onDriver (d.pushRx bytes) with
    | (.error e, d) => return (.error (.core e), d, port)
    | (.ok _, d) => return (.ok (), d, port)
  | .error e => return (.error (.io e), d, port)
  | .elapsed => return (.ok (), d, port)

/-- The loop takes a turn only after a read. -/
def turn (deadline : Nat) : Turn ε (Read ε) (Error ε) where
  run := readOnce deadline
  reads_lt := by
    intro d d' port port' h
    unfold readOnce at h
    obtain ⟨⟨now, clock⟩, -, h⟩ := Except.bind_eq_ok.mp h
    change (if deadline - now = 0 then _ else answer port.reads >>= _) = _ at h
    split_ifs at h
    · cases h
    obtain ⟨⟨read, reads⟩, hread, h⟩ := Except.bind_eq_ok.mp h
    have hlt : reads.length < port.reads.length := by
      rw [answer_eq_ok.mp hread]
      exact Nat.lt_succ_self _
    cases read with
    | elapsed => cases h; exact hlt
    | error e => cases h
    | ok bytes =>
      obtain ⟨⟨e | n, d₁⟩, -, h⟩ := Except.bind_eq_ok.mp h
      · cases h
      · cases h
        exact hlt

end

/-! ### The methods -/

/-- `rylr998_embassy::Radio` -/
structure Radio (ε : Type) where
  driver : Driver
  uart : Port ε
  /-- What `log_event` has logged. -/
  log : List Event

namespace Radio

/-- `Radio::new` -/
def new {ε : Type} (uart : Port ε) : Radio ε := ⟨.new, uart, []⟩

section

variable [Target] {ε α : Type} (radio : Radio ε)

/-- `Radio::pump_until`. The events go to the log. -/
def pumpUntil (deadline : Nat) (want : Response → Option (Except (Error ε) α)) :
    Except Halt (Except (Error ε) α × Radio ε) := do
  let p ← pump (turn deadline) .io want radio.driver radio.uart
  return (p.result, ⟨p.driver, p.port, radio.log ++ p.events⟩)

/-- What every command method does: submit the command, then pump until `want` has a result. -/
def command (cmd : Command) (timeout : Nat) (want : Response → Option (Except (Error ε) α)) :
    Except Halt (Except (Error ε) α × Radio ε) := do
  match ← onDriver (radio.driver.submit cmd) with
  | (.error e, driver) => return (.error (.core e), { radio with driver })
  | (.ok (), driver) =>
    let (now, clock) ← answer radio.uart.clock
    pumpUntil { radio with driver, uart := { radio.uart with clock } } (now + timeout) want

variable (tickHz : Nat)

/-- `Radio::ping` -/
def ping := radio.command .ping (defaultTimeout tickHz) waitOk

/-- `Radio::set_address` -/
def setAddress (n : UInt16) := radio.command (.setAddress n) (defaultTimeout tickHz) waitOk

/-- `Radio::address` -/
def address := radio.command .getAddress (defaultTimeout tickHz)
  (waitValue fun | .address n => some n | _ => none)

/-- `Radio::set_network_id` -/
def setNetworkId (n : UInt8) := radio.command (.setNetworkId n) (defaultTimeout tickHz) waitOk

/-- `Radio::network_id` -/
def networkId := radio.command .getNetworkId (defaultTimeout tickHz)
  (waitValue fun | .networkId n => some n | _ => none)

/-- `Radio::set_band` -/
def setBand (hz : UInt32) := radio.command (.setBand hz) (defaultTimeout tickHz) waitOk

/-- `Radio::band` -/
def band := radio.command .getBand (defaultTimeout tickHz)
  (waitValue fun | .band n => some n | _ => none)

/-- `Radio::cpin` -/
def cpin := radio.command .getCpin (defaultTimeout tickHz) waitCpin

/-- `Radio::set_cpin` -/
def setCpin (password : List UInt8) :=
  radio.command (.setCpin password) (defaultTimeout tickHz) waitOk

/-- `Radio::set_parameters` -/
def setParameters (p : RfParams) := radio.command (.setParameters p) (defaultTimeout tickHz) waitOk

/-- `Radio::parameters` -/
def parameters := radio.command .getParameters (defaultTimeout tickHz)
  (waitValue fun | .parameters p => some p | _ => none)

/-- `Radio::crfop` -/
def crfop := radio.command .getCrfop (defaultTimeout tickHz)
  (waitValue fun | .crfop n => some n | _ => none)

/-- `Radio::factory_reset` -/
def factoryReset := radio.command .factoryReset (factoryResetTimeout tickHz) waitOk

/-- `Radio::send` -/
def send (toAddr : UInt16) (data : List UInt8) :=
  radio.command (.send toAddr data) (defaultTimeout tickHz) waitOk

end

end Radio

/-! ### `next_event` -/

/-- The loop over `Driver::poll` of `next_event` when it has ended. -/
structure Handled (ε σ β : Type) where
  stop : LoopEnd ε β
  /-- What the handler has captured. -/
  state : σ
  driver : Driver
  /-- The answers that are left for `write_all`. -/
  writes : List (Except ε Unit)

/-- A call of `next_event` that has returned. -/
structure Heard (ε σ β : Type) where
  result : Except (Error ε) β
  /-- What the handler has captured. -/
  state : σ
  driver : Driver
  uart : Port ε

section

variable [Target] {ε σ β : Type} (handler : σ → Event → Option β × σ)

/-- The loop over `Driver::poll` of `next_event`: the handler is called with each event until it
returns a value, and the responses are thrown away. -/
def handlerLoop (s : σ) (d : Driver) (writes : List (Except ε Unit)) :
    Except Halt (Handled ε σ β) :=
  match h : d.poll with
  | .error f => .error (.panicked f)
  | .ok (.idle, d') => .ok ⟨.idle, s, d', writes⟩
  | .ok (.event e, d') =>
    have := Driver.poll_decreases h nofun
    match handler s e with
    | (some r, s) => .ok ⟨.wanted r, s, d', writes⟩
    | (none, s) => handlerLoop s d' writes
  | .ok (.response _, d') =>
    have := Driver.poll_decreases h nofun
    handlerLoop s d' writes
  | .ok (.needTx bytes, d') =>
    match writes with
    | [] => .error .blocked
    | .error e :: writes => .ok ⟨.failed e, s, d', writes⟩
    | .ok () :: writes =>
      match ha : d'.ackTx bytes.length with
      | .error f => .error (.panicked f)
      | .ok d'' =>
        have := Driver.ack_decreases h ha
        handlerLoop s d'' writes
termination_by d.tx.len - d.txInFlight + d.rx.len

/-- The loop of `next_event`. It reads and gives up as `Radio::pump_until` does. -/
def handlerPump (deadline : Nat) (s : σ) (d : Driver) (port : Port ε) :
    Except Halt (Heard ε σ β) :=
  match handlerLoop handler s d port.writes with
  | .error halt => .error halt
  | .ok ⟨.wanted r, s, d, writes⟩ => .ok ⟨.ok r, s, d, { port with writes }⟩
  | .ok ⟨.failed e, s, d, writes⟩ => .ok ⟨.error (.io e), s, d, { port with writes }⟩
  | .ok ⟨.idle, s, d, writes⟩ =>
    match ht : (turn deadline).run d { port with writes } with
    | .error halt => .error halt
    | .ok (.error e, d, port) => .ok ⟨.error e, s, d, port⟩
    | .ok (.ok (), d, port') =>
      have := (turn deadline).reads_lt ht
      handlerPump deadline s d port'
termination_by port.reads.length

/-- `Radio::next_event`, and what the handler has captured at its end. -/
def Radio.nextEvent (radio : Radio ε) (timeout : Nat) (s : σ) :
    Except Halt (Except (Error ε) β × σ × Radio ε) := do
  let (now, clock) ← answer radio.uart.clock
  let h ← handlerPump handler (now + timeout) s radio.driver { radio.uart with clock }
  return (h.result, h.state, { radio with driver := h.driver, uart := h.uart })

end

end Rylr998.Embassy
