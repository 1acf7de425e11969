import Rylr998.Host.Equiv.Calls
import Rylr998.Lib.Interact

/-!
# The commands of the tool

`rylr998-tool`: what `info`, `provision`, `reset`, `send` and `listen` do with a blocking radio.
What they print is a list of lines, each with the values in it; how a line is laid out is left out.
-/

namespace Rylr998.Tool

open Interact

/-- `rylr998_std::Error`, without the errors of finding and opening a port. -/
inductive Error where
  | std (e : Std.Error)
  /-- `Error::Io(std::io::Error::other(text))` -/
  | other (text : String)
  deriving DecidableEq

/-- A line that the tool prints: which of its lines it is, and the values in it. -/
inductive Line where
  | ping (marker : String)
  | address (n : UInt16)
  | networkId (n : UInt8)
  | band (hz : UInt32)
  | cpin (s : String)
  | parameters (p : RfParams)
  | crfop (n : UInt8)
  | uid (s : String)
  | version (s : String)
  | provisioned (address : UInt16) (net : UInt8) (cpin : Option String) (band : Option UInt32)
    (params : Option RfParams)
  /-- `+OK` -/
  | sent
  | message (fromAddr : UInt16) (rssi snr : Int16) (data : List UInt8)
  /-- `(radio rebooted)`, on the error output. -/
  | rebooted
  deriving DecidableEq

/-- The tool while it runs. -/
structure Process where
  radio : Std.Radio
  /-- What it has printed. -/
  lines : List Line
  /-- What reading the standard input to its end returns. -/
  stdin : Except ErrorKind (List UInt8)
  /-- What `ctrlc::set_handler` returns: an error with its text, or success. -/
  handler : Except String Unit
  /-- What the looks at `stop` find. -/
  stops : List Bool
  /-- The calls of the driver so far: the tool does not look at them. -/
  calls : List Call

/-- The tool as it starts, with the port just opened. -/
def Process.start (port : Std.Port) (stdin : Except ErrorKind (List UInt8))
    (handler : Except String Unit) (stops : List Bool) : Process :=
  ⟨.fromPort port, [], stdin, handler, stops, []⟩

/-- A function of the tool: `?` hands an error on. -/
abbrev ToolM (α : Type) : Type := Program Process Error Halt α

/-! ### The methods of the radio -/

/-- A command method of `rylr998_std::Radio`. -/
inductive CommandMethod : Type → Type where
  | ping : CommandMethod Unit
  | factoryReset : CommandMethod Unit
  | setAddress (n : UInt16) : CommandMethod Unit
  | address : CommandMethod UInt16
  | setNetworkId (n : UInt8) : CommandMethod Unit
  | networkId : CommandMethod UInt8
  | setBand (hz : UInt32) : CommandMethod Unit
  | band : CommandMethod UInt32
  | setCpin (password : List UInt8) : CommandMethod Unit
  | cpin : CommandMethod String
  | setParameters (p : RfParams) : CommandMethod Unit
  | parameters : CommandMethod RfParams
  | crfop : CommandMethod UInt8
  | uid : CommandMethod String
  | version : CommandMethod String
  | send (toAddr : UInt16) (data : List UInt8) : CommandMethod Unit

namespace CommandMethod

variable {α : Type}

/-- Call the method. -/
def call [Target] (radio : Std.Radio) :
    CommandMethod α → Except Halt (Except Std.Error α × Std.Radio)
  | ping => radio.ping
  | factoryReset => radio.factoryReset
  | setAddress n => radio.setAddress n
  | address => radio.address
  | setNetworkId n => radio.setNetworkId n
  | networkId => radio.networkId
  | setBand hz => radio.setBand hz
  | band => radio.band
  | setCpin password => radio.setCpin password
  | cpin => radio.cpin
  | setParameters p => radio.setParameters p
  | parameters => radio.parameters
  | crfop => radio.crfop
  | uid => radio.uid
  | version => radio.version
  | send toAddr data => radio.send toAddr data

/-- The command that it submits. -/
def command : CommandMethod α → Command
  | ping => .ping
  | factoryReset => .factoryReset
  | setAddress n => .setAddress n
  | address => .getAddress
  | setNetworkId n => .setNetworkId n
  | networkId => .getNetworkId
  | setBand hz => .setBand hz
  | band => .getBand
  | setCpin password => .setCpin password
  | cpin => .getCpin
  | setParameters p => .setParameters p
  | parameters => .getParameters
  | crfop => .getCrfop
  | uid => .getUid
  | version => .getVersion
  | send toAddr data => .send toAddr data

/-- How long it waits. -/
def timeout : CommandMethod α → Nat
  | factoryReset => Std.factoryResetTimeout
  | _ => Std.defaultTimeout

/-- What it returns at a response. -/
def want : CommandMethod α → Response → Option (Except Std.Error α)
  | ping | factoryReset | setAddress _ | setNetworkId _ | setBand _ | setCpin _
  | setParameters _ | send _ _ => Std.waitOk
  | address => Std.waitValue fun | .address n => some n | _ => none
  | networkId => Std.waitValue fun | .networkId n => some n | _ => none
  | band => Std.waitValue fun | .band n => some n | _ => none
  | cpin => Std.waitValue fun | .cpin s => some s | _ => none
  | parameters => Std.waitValue fun | .parameters p => some p | _ => none
  | crfop => Std.waitValue fun | .crfop n => some n | _ => none
  | uid => Std.waitValue fun | .uid s => some s | _ => none
  | version => Std.waitValue fun | .version s => some s | _ => none

theorem call_eq [Target] (m : CommandMethod α) (radio : Std.Radio) :
    m.call radio = radio.command m.command m.timeout m.want := by
  cases m <;> rfl

/-- The calls of the driver that it makes. -/
def calls [Target] (m : CommandMethod α) (radio : Std.Radio) : List Call :=
  radio.commandCalls m.command m.timeout m.want

end CommandMethod

section

variable [Target] {α : Type}

/-- Call a command method of the radio. -/
def command (m : CommandMethod α) : ToolM α := fun p => do
  let (r, radio) ← m.call p.radio
  return (r.mapError .std, { p with radio, calls := p.calls ++ m.calls p.radio })

/-- Call `Radio::next_event`. -/
def nextEvent (timeout : Nat) : ToolM Event := fun p => do
  let (r, radio) ← p.radio.nextEvent timeout
  return (r.mapError .std, { p with radio, calls := p.calls ++ p.radio.nextEventCalls timeout })

end

/-- Print a line. -/
def printLine (line : Line) : ToolM Unit :=
  modify fun p => { p with lines := p.lines ++ [line] }

/-! ### The commands -/

/-- `marker` -/
def marker : Except Error Unit → String
  | .ok () => "ok"
  | .error _ => "fail"

/-- `verify_failed` -/
def verifyFailed (field : String) : Error := .other ("provisioning verify failed: " ++ field)

/-- `u8::to_ascii_lowercase` -/
def toAsciiLowercase (b : UInt8) : UInt8 := if 65 ≤ b ∧ b ≤ 90 then b + 32 else b

/-- `str::eq_ignore_ascii_case` -/
def eqIgnoreAsciiCase (s t : String) : Bool :=
  (utf8 s).map toAsciiLowercase = (utf8 t).map toAsciiLowercase

section

variable [Target]

/-- `info` -/
def info : ToolM Unit := do
  printLine (.ping (marker (← attempt (command .ping))))
  printLine (.address (← command .address))
  printLine (.networkId (← command .networkId))
  printLine (.band (← command .band))
  printLine (.cpin (← command .cpin))
  printLine (.parameters (← command .parameters))
  printLine (.crfop (← command .crfop))
  printLine (.uid (← command .uid))
  printLine (.version (← command .version))

/-- What `provision` does with a setting: set it, read it back and compare. -/
def setAndVerify {α : Type} (set : CommandMethod Unit) (get : CommandMethod α) (same : α → Bool)
    (field : String) : ToolM Unit := do
  command set
  let value ← command get
  if same value then return () else throw (verifyFailed field)

/-- `provision` -/
def provision (address : UInt16) (net : UInt8) (cpin : Option String) (band : Option UInt32)
    (params : Option RfParams) : ToolM Unit := do
  setAndVerify (.setAddress address) .address (· == address) "address"
  setAndVerify (.setNetworkId net) .networkId (· == net) "network_id"
  cpin.forM fun s =>
    setAndVerify (.setCpin (utf8 s)) .cpin (eqIgnoreAsciiCase · s) "cpin"
  band.forM fun b => setAndVerify (.setBand b) .band (· == b) "band"
  params.forM fun p => setAndVerify (.setParameters p) .parameters (· == p) "parameters"
  printLine (.provisioned address net cpin band params)

/-- `reset` -/
def reset : ToolM Unit := command .factoryReset

/-- `send` -/
def send (toAddr : UInt16) (message : String) : ToolM Unit := do
  let bytes ← if message = "-" then
      -- `?` on the result of `read_to_end`
      ask fun p => p.stdin.mapError fun e => .std (.io e)
    else
      pure (utf8 message)
  command (.send toAddr bytes)
  printLine .sent

/-- What `listen` does with what `next_event` returns. -/
def heard : Except Error Event → ToolM Unit
  | .ok (.recv fromAddr data rssi snr) => printLine (.message fromAddr rssi snr data)
  | .ok .ready => printLine .rebooted
  | .error (.std .timeout) => return ()
  | .error e => throw e

/-- The loop of `listen`, for the looks at `stop` that are to come. -/
def listenLoop : List Bool → ToolM Unit
  | [] => fun _ => .error .blocked
  | true :: _ => return ()
  | false :: stops => do
    heard (← attempt (nextEvent 1000000000))
    listenLoop stops

/-- `listen` -/
def listen : ToolM Unit := do
  ask fun p => p.handler.mapError .other
  listenLoop (← ask fun p => .ok p.stops)

/-- `Cmd` -/
inductive Cmd where
  | info
  | provision (address : UInt16) (net : UInt8) (cpin : Option String) (band : Option UInt32)
    (params : Option RfParams)
  | reset
  | send (toAddr : UInt16) (message : String)
  | listen
  deriving DecidableEq

/-- What `main` does with the command when the port is open. -/
def Cmd.run : Cmd → ToolM Unit
  | info => Tool.info
  | provision address net cpin band params => Tool.provision address net cpin band params
  | reset => Tool.reset
  | send toAddr message => Tool.send toAddr message
  | listen => Tool.listen

end

end Rylr998.Tool
