import Rylr998.Host.Pump

/-!
# The blocking radio

`rylr998_std::Radio`. A command method submits one command and pumps until its response has come or
the deadline has passed. Times are in nanoseconds.
-/

namespace Rylr998.Std

/-- `rylr998_std::Error`, without the errors of finding and opening a port. -/
inductive Error where
  | core (e : Rylr998.Error)
  | io (e : ErrorKind)
  | timeout
  | radio (code : UInt8)
  deriving DecidableEq

/-- The answers of `port` and of `Instant::now()`. -/
abbrev Port : Type := Rylr998.Port ErrorKind (Except ErrorKind Chunk)

/-- `DEFAULT_TIMEOUT` -/
def defaultTimeout : Nat := 1000000000

/-- `FACTORY_RESET_TIMEOUT` -/
def factoryResetTimeout : Nat := 4000000000

/-- `wait_ok` -/
def waitOk : Response → Option (Except Error Unit)
  | .ok => some (.ok ())
  | .err n => some (.error (.radio n))
  | _ => none

/-- The closure of a query: it waits for the value that `value` finds in a response. -/
def waitValue {α : Type} (value : Response → Option α) (r : Response) : Option (Except Error α) :=
  match value r, r with
  | some a, _ => some (.ok a)
  | none, .err n => some (.error (.radio n))
  | none, _ => none

/-! ### The loop -/

/-- `Instant::now() >= deadline` ends the call. -/
def checkDeadline (deadline : Nat) (d : Driver) (port : Port) :
    Except Halt (Except Error Unit × Driver × Port) := do
  let (now, clock) ← answer port.clock
  return (if deadline ≤ now then .error .timeout else .ok (), d, { port with clock })

/-- What `Radio::pump_until` does between two loops over `Driver::poll`. -/
def readOnce (deadline : Nat) (d : Driver) (port : Port) :
    Except Halt (Except Error Unit × Driver × Port) := do
  let (read, reads) ← answer port.reads
  let port := { port with reads }
  match read with
  | .ok bytes =>
    match ← onDriver (d.pushRx bytes) with
    | (.error e, d) => return (.error (.core e), d, port)
    | (.ok _, d) => checkDeadline deadline d port
  | .error .wouldBlock => checkDeadline deadline d port
  | .error .timedOut => checkDeadline deadline d port
  | .error e => return (.error (.io e), d, port)

theorem checkDeadline_reads {deadline : Nat} {d d' : Driver} {port port' : Port}
    {r : Except Error Unit} (h : checkDeadline deadline d port = .ok (r, d', port')) :
    port'.reads = port.reads := by
  unfold checkDeadline at h
  obtain ⟨⟨now, clock⟩, -, h⟩ := Except.bind_eq_ok.mp h
  cases h
  rfl

/-- The loop takes a turn only after a read. -/
def turn (deadline : Nat) : Turn ErrorKind (Except ErrorKind Chunk) Error where
  run := readOnce deadline
  reads_lt := by
    intro d d' port port' h
    unfold readOnce at h
    obtain ⟨⟨read, reads⟩, hread, h⟩ := Except.bind_eq_ok.mp h
    have hlt : reads.length < port.reads.length := by
      rw [answer_eq_ok.mp hread]
      exact Nat.lt_succ_self _
    rcases read with e | bytes
    · cases e with
      | wouldBlock | timedOut => rwa [checkDeadline_reads h]
      | other code => cases h
    · obtain ⟨⟨e | n, d₁⟩, -, h⟩ := Except.bind_eq_ok.mp h
      · cases h
      · rwa [checkDeadline_reads h]

/-! ### The methods -/

/-- `rylr998_std::Radio` -/
structure Radio where
  driver : Driver
  port : Port
  /-- The events that `next_event` has not returned yet. -/
  events : List Event
  deriving DecidableEq

namespace Radio

/-- `Radio::from_port` -/
def fromPort (port : Port) : Radio := ⟨.new, port, []⟩

section

variable [Target] {α : Type} (radio : Radio)

/-- `Radio::pump_until` -/
def pumpUntil (deadline : Nat) (want : Response → Option (Except Error α)) :
    Except Halt (Except Error α × Radio) := do
  let p ← pump (turn deadline) .io want radio.driver radio.port
  return (p.result, ⟨p.driver, p.port, radio.events ++ p.events⟩)

/-- What every command method does: submit the command, then pump until `want` has a result. -/
def command (cmd : Command) (timeout : Nat) (want : Response → Option (Except Error α)) :
    Except Halt (Except Error α × Radio) := do
  match ← onDriver (radio.driver.submit cmd) with
  | (.error e, driver) => return (.error (.core e), { radio with driver })
  | (.ok (), driver) =>
    let (now, clock) ← answer radio.port.clock
    pumpUntil { radio with driver, port := { radio.port with clock } } (now + timeout) want

/-- `Radio::ping` -/
def ping := radio.command .ping defaultTimeout waitOk

/-- `Radio::factory_reset` -/
def factoryReset := radio.command .factoryReset factoryResetTimeout waitOk

/-- `Radio::set_address` -/
def setAddress (n : UInt16) := radio.command (.setAddress n) defaultTimeout waitOk

/-- `Radio::address` -/
def address := radio.command .getAddress defaultTimeout
  (waitValue fun | .address n => some n | _ => none)

/-- `Radio::set_network_id` -/
def setNetworkId (n : UInt8) := radio.command (.setNetworkId n) defaultTimeout waitOk

/-- `Radio::network_id` -/
def networkId := radio.command .getNetworkId defaultTimeout
  (waitValue fun | .networkId n => some n | _ => none)

/-- `Radio::set_band` -/
def setBand (hz : UInt32) := radio.command (.setBand hz) defaultTimeout waitOk

/-- `Radio::band` -/
def band := radio.command .getBand defaultTimeout
  (waitValue fun | .band n => some n | _ => none)

/-- `Radio::cpin` -/
def cpin := radio.command .getCpin defaultTimeout
  (waitValue fun | .cpin s => some s | _ => none)

/-- `Radio::set_cpin` -/
def setCpin (password : List UInt8) := radio.command (.setCpin password) defaultTimeout waitOk

/-- `Radio::set_parameters` -/
def setParameters (p : RfParams) := radio.command (.setParameters p) defaultTimeout waitOk

/-- `Radio::parameters` -/
def parameters := radio.command .getParameters defaultTimeout
  (waitValue fun | .parameters p => some p | _ => none)

/-- `Radio::crfop` -/
def crfop := radio.command .getCrfop defaultTimeout
  (waitValue fun | .crfop n => some n | _ => none)

/-- `Radio::uid` -/
def uid := radio.command .getUid defaultTimeout (waitValue fun | .uid s => some s | _ => none)

/-- `Radio::version` -/
def version := radio.command .getVersion defaultTimeout
  (waitValue fun | .version s => some s | _ => none)

/-- `Radio::send` -/
def send (toAddr : UInt16) (data : List UInt8) :=
  radio.command (.send toAddr data) defaultTimeout waitOk

/-- `Radio::next_event`. The result of the loop is thrown away. -/
def nextEvent (timeout : Nat) : Except Halt (Except Error Event × Radio) :=
  match radio.events with
  | e :: events => return (.ok e, { radio with events })
  | [] => do
    let (now, clock) ← answer radio.port.clock
    let (_, radio) ← pumpUntil { radio with port := { radio.port with clock } } (now + timeout)
      fun _ => (none : Option (Except Error Unit))
    match radio.events with
    | e :: events => return (.ok e, { radio with events })
    | [] => return (.error .timeout, radio)

end

end Radio

end Rylr998.Std
