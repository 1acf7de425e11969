import Mathlib.Init

/-!
# The public types of the protocol

Commands, responses, events, the result of one `poll` and the errors of the protocol layer.
Borrowed byte slices are lists of bytes and `&str` is `String`. `OwnedEvent` and the texts of the
errors are not modelled: copying an event to the heap changes nothing here.
-/

namespace Rylr998

/-- LoRa physical-layer parameters. -/
@[ext] structure RfParams where
  /-- Spreading factor. -/
  sf : UInt8
  /-- Signal bandwidth. -/
  bw : UInt8
  /-- Coding rate. -/
  cr : UInt8
  /-- Preamble length in symbols. -/
  preamble : UInt8
  deriving DecidableEq

/-- A command to submit to a driver. -/
inductive Command where
  | ping
  | getAddress
  | setAddress (n : UInt16)
  | getNetworkId
  | setNetworkId (n : UInt8)
  | getBand
  | setBand (hz : UInt32)
  | getCpin
  | setCpin (pw : List UInt8)
  | getParameters
  | setParameters (p : RfParams)
  | getCrfop
  | getUid
  | getVersion
  | factoryReset
  | send (toAddr : UInt16) (data : List UInt8)
  deriving DecidableEq

/-- A solicited reply to a command. -/
inductive Response where
  | ok
  | err (code : UInt8)
  | address (n : UInt16)
  | networkId (n : UInt8)
  | band (hz : UInt32)
  | parameters (p : RfParams)
  | crfop (n : UInt8)
  | uid (s : String)
  | version (s : String)
  | cpin (s : String)
  deriving DecidableEq

/-- An unsolicited message from the radio. -/
inductive Event where
  | recv (fromAddr : UInt16) (data : List UInt8) (rssi snr : Int16)
  | ready
  deriving DecidableEq

/-- The result of one `poll`. -/
inductive Poll where
  | idle
  | needTx (bytes : List UInt8)
  | response (r : Response)
  | event (e : Event)
  deriving DecidableEq

/-- Errors of the protocol layer. -/
inductive Error where
  | busy
  | txOverflow
  | rxOverflow
  | parse
  deriving DecidableEq

end Rylr998
