import Mathlib.Logic.Relation
import Rylr998.Core.Equiv.Decode
import Rylr998.Core.Runs

/-!
# A driver and a radio

The closed system of a driver, its caller and a radio that answers each command once. The caller
submits commands, polls, acknowledges and pushes fragments of what the radio has sent, in any
order. The radio answers the accepted commands in order and sends messages between its lines
whenever it likes (`World.Step`). It need not wait until it has been handed the whole encoding of
the command: nothing of what follows depends on it.
-/

namespace Rylr998

/-- The state of the system, with the history of what was accepted, sent and returned. -/
structure World where
  driver : Driver
  /-- The commands accepted, in order. -/
  accepted : List Command
  /-- What the radio has sent and the caller has not pushed yet. -/
  wire : List UInt8
  /-- The commands the radio has answered, each with the response its reply stands for. -/
  answered : List (Command × Response)
  /-- The radio has sent `+RESET` and owes `+READY`. -/
  resetting : Bool
  /-- The responses that `poll` has returned, in order. -/
  responses : List Response

/-- The response that the call returns. -/
def Call.response? : Call → Option Response
  | .poll (.response r) => some r
  | _ => none

namespace World

/-- The start: a fresh driver and a radio that has sent nothing. -/
def init : World := ⟨.new, [], [], [], false, []⟩

/-- The system after the caller's call `c`, which leads to the driver `d`. -/
def called (w : World) (c : Call) (d : Driver) : World :=
  { w with
    driver := d
    accepted := w.accepted ++ c.accepted?.toList
    responses := w.responses ++ c.response?.toList }

/-- The radio owes the answer to `cmd`, the first command it has not answered. -/
def Owes (w : World) (cmd : Command) : Prop :=
  w.resetting = false ∧ w.accepted[w.answered.length]? = some cmd

/-- The system after the radio has sent `line`. -/
def sent (w : World) (line : List UInt8) : World :=
  { w with wire := w.wire ++ (line ++ [cr, lf]) }

/-- The steps of the caller and of the radio. -/
inductive Step [Target] (w : World) : World → Prop
  /-- The caller submits a command, polls or acknowledges. -/
  | call {op : Op} {c : Call} {d : Driver} : (∀ bytes, op ≠ .pushRx bytes) →
    w.driver.step op = .ok (c, d) → Step w (w.called c d)
  /-- The caller pushes a fragment of what the radio has sent; it fits. -/
  | push {bytes rest : List UInt8} {n : Nat} {d : Driver} : w.wire = bytes ++ rest →
    w.driver.step (.pushRx bytes) = .ok (.pushRx bytes (.ok n), d) →
    Step w { w with driver := d, wire := rest }
  /-- The radio sends a message. -/
  | message {line : List UInt8} {e : Event} : IsRcv line e → cr ∉ line →
    line.length ≤ lineBufLength → Step w (w.sent line)
  /-- The radio replies to a command; to a factory reset only with an error. -/
  | reply {cmd : Command} {line : List UInt8} {r : Response} : w.Owes cmd →
    IsReply cmd.awaitKind line r → (cmd = .factoryReset → r ≠ .ok) → cr ∉ line →
    line.length ≤ lineBufLength →
    Step w { w.sent line with answered := w.answered ++ [(cmd, r)] }
  /-- The radio starts a factory reset. -/
  | reset : w.Owes .factoryReset → Step w { w.sent (utf8 "+RESET") with resetting := true }
  /-- The radio is up again after the factory reset. -/
  | ready : w.resetting = true → Step w { w.sent (utf8 "+READY") with
      answered := w.answered ++ [(.factoryReset, .ok)]
      resetting := false }

/-- The states the system can reach. -/
def Reached [Target] (w : World) : Prop := Relation.ReflTransGen Step init w

end World

end Rylr998
