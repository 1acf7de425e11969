import Rylr998.Host.Pump

/-!
# The jobs of the async radio

`process_job` of `rylr998_tokio`: the background task submits the command of a job and pumps until
its response has come or the deadline of the job has passed. A method of the handle is a job and a
`match` on its reply.
-/

namespace Rylr998.Tokio

/-- `rylr998_tokio::Error`, without the errors of opening a port. -/
inductive Error where
  | core (e : Rylr998.Error)
  | io (e : ErrorKind)
  | timeout
  | radio (code : UInt8)
  | closed
  deriving DecidableEq

/-- What `timeout_at(deadline, port.read(buf))` returns. -/
inductive Read where
  /-- The deadline passed first. -/
  | elapsed
  | ok (bytes : Chunk)
  | error (e : ErrorKind)

/-- The answers of `port`. The runtime keeps the time: there is no look at the clock. -/
abbrev Port : Type := Rylr998.Port ErrorKind Read

/-- `OwnedCommand`: a `Command` with its bytes on the heap. -/
abbrev OwnedCommand : Type := Command

/-- `OwnedResponse`: a `Response` with its text on the heap. -/
abbrev OwnedResponse : Type := Response

/-- What `process_job` does between two loops over `Driver::poll`. The result of `push_rx` is
thrown away. -/
def readOnce (d : Driver) (port : Port) : Except Halt (Except Error Unit × Driver × Port) := do
  let (read, reads) ← answer port.reads
  let port := { port with reads }
  match read with
  | .ok ⟨[], _⟩ => return (.error .closed, d, port)
  | .ok bytes =>
    let (_, d) ← onDriver (d.pushRx bytes)
    return (.ok (), d, port)
  | .error e => return (.error (.io e), d, port)
  | .elapsed => return (.error .timeout, d, port)

/-- The loop takes a turn only after a read. -/
def turn : Turn ErrorKind Read Error where
  run := readOnce
  reads_lt := by
    intro d d' port port' h
    unfold readOnce at h
    obtain ⟨⟨read, reads⟩, hread, h⟩ := Except.bind_eq_ok.mp h
    have hlt : reads.length < port.reads.length := by
      rw [answer_eq_ok.mp hread]
      exact Nat.lt_succ_self _
    rcases read with _ | ⟨_ | ⟨b, bytes⟩, hlen⟩ | e
    · cases h
    · cases h
    · obtain ⟨⟨res, d₁⟩, -, h⟩ := Except.bind_eq_ok.mp h
      cases h
      exact hlt
    · cases h

/-- `process_job`: the result, the driver, the port and the events sent to the handle. A channel
that is full or closed does not change them. -/
def processJob [Target] (d : Driver) (port : Port) (cmd : OwnedCommand) :
    Except Halt (Pumped ErrorKind Read Error OwnedResponse) := do
  match ← onDriver (d.submit cmd) with
  | (.error e, d) => return ⟨.error (.core e), [], d, port⟩
  | (.ok (), d) => pump turn .io (fun r => some (.ok r)) d port

/-! ### The methods -/

/-- The `match` on the reply to a job: `value` finds in a response what the method returns. -/
def expect {α : Type} (value : Response → Option α) (reply : Except Error OwnedResponse) :
    Except Error α := do
  let r ← reply
  match value r, r with
  | some a, _ => .ok a
  | none, .err n => .error (.radio n)
  | none, _ => .error (.core .parse)

/-- `OwnedResponse::Ok => Ok(())` -/
def okValue : Response → Option Unit
  | .ok => some ()
  | _ => none

section

variable [Target] {α : Type} (d : Driver) (port : Port)

/-- What every method of the handle does: a job for its command, and the `match` on the reply. -/
def method (cmd : OwnedCommand) (value : Response → Option α) :
    Except Halt (Pumped ErrorKind Read Error α) := do
  let p ← processJob d port cmd
  return ⟨expect value p.result, p.events, p.driver, p.port⟩

/-- `AsyncRadio::ping` -/
def ping := method d port .ping okValue

/-- `AsyncRadio::set_address` -/
def setAddress (n : UInt16) := method d port (.setAddress n) okValue

/-- `AsyncRadio::address` -/
def address := method d port .getAddress fun | .address n => some n | _ => none

/-- `AsyncRadio::set_network_id` -/
def setNetworkId (n : UInt8) := method d port (.setNetworkId n) okValue

/-- `AsyncRadio::network_id` -/
def networkId := method d port .getNetworkId fun | .networkId n => some n | _ => none

/-- `AsyncRadio::set_band` -/
def setBand (hz : UInt32) := method d port (.setBand hz) okValue

/-- `AsyncRadio::band` -/
def band := method d port .getBand fun | .band n => some n | _ => none

/-- `AsyncRadio::cpin` -/
def cpin := method d port .getCpin fun | .cpin s => some s | _ => none

/-- `AsyncRadio::set_cpin` -/
def setCpin (password : List UInt8) := method d port (.setCpin password) okValue

/-- `AsyncRadio::set_parameters` -/
def setParameters (p : RfParams) := method d port (.setParameters p) okValue

/-- `AsyncRadio::parameters` -/
def parameters := method d port .getParameters fun | .parameters p => some p | _ => none

/-- `AsyncRadio::crfop` -/
def crfop := method d port .getCrfop fun | .crfop n => some n | _ => none

/-- `AsyncRadio::uid` -/
def uid := method d port .getUid fun | .uid s => some s | _ => none

/-- `AsyncRadio::version` -/
def version := method d port .getVersion fun | .version s => some s | _ => none

/-- `AsyncRadio::factory_reset` -/
def factoryReset := method d port .factoryReset okValue

/-- `AsyncRadio::send` -/
def send (toAddr : UInt16) (data : List UInt8) := method d port (.send toAddr data) okValue

end

end Rylr998.Tokio
