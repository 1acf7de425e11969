import Rylr998.Core.Driver
import Rylr998.Core.Machine
import Rylr998.Lib.Run

/-!
# Runs of a driver

`Driver.step` is one call of a public operation, `Op` the operation with its arguments and `Call`
the call with its result. A run (`Runs`) starts from a fresh driver; its list of calls is all that
the caller sees.
-/

namespace Rylr998

/-- A public operation of the driver. -/
inductive Op where
  | submit (cmd : Command)
  | pushRx (bytes : List UInt8)
  | poll
  | ackTx (n : Nat)
  deriving DecidableEq

/-- A call of an operation and its result. -/
inductive Call where
  | submit (cmd : Command) (r : Except Error Unit)
  | pushRx (bytes : List UInt8) (r : Except Error Nat)
  | poll (p : Poll)
  | ackTx (n : Nat)
  deriving DecidableEq

/-- The bytes that the operation brings. -/
def Op.bytes : Op → List UInt8
  | .pushRx bytes => bytes
  | _ => []

/-- Call an operation of the driver. -/
def Driver.step [Target] (d : Driver) : Op → Except Fault (Call × Driver)
  | .submit cmd => (d.submit cmd).map fun p => (.submit cmd p.1, p.2)
  | .pushRx bytes => (d.pushRx bytes).map fun p => (.pushRx bytes p.1, p.2)
  | .poll => d.poll.map fun p => (.poll p.1, p.2)
  | .ackTx n => (d.ackTx n).map fun d' => (.ackTx n, d')

/-- The operation that a call is a call of. -/
def Call.op : Call → Op
  | .submit cmd _ => .submit cmd
  | .pushRx bytes _ => .pushRx bytes
  | .poll _ => .poll
  | .ackTx n => .ackTx n

theorem Driver.op_of_step [Target] {d d' : Driver} {op : Op} {c : Call}
    (h : d.step op = .ok (c, d')) : c.op = op := by
  cases op <;> obtain ⟨p, -, hp⟩ := Except.map_eq_ok.mp h <;> cases hp <;> rfl

theorem Driver.step_poll_iff [Target] {d d' : Driver} {c : Call} :
    d.step .poll = .ok (c, d') ↔ ∃ p, c = .poll p ∧ d.poll = .ok (p, d') := by
  rw [Driver.step, Except.map_eq_ok]
  constructor
  · rintro ⟨⟨p, d₁⟩, hp, h⟩
    obtain ⟨rfl, rfl⟩ := Prod.mk.inj h
    exact ⟨p, rfl, hp⟩
  · rintro ⟨p, rfl, hp⟩
    exact ⟨(p, d'), hp, rfl⟩

/-- The operations `ops` on a fresh driver make the calls `calls` and end in `d`. -/
def Runs [Target] (ops : List Op) (calls : List Call) (d : Driver) : Prop :=
  Component.run Driver.step .new ops = .ok (calls, d)

/-- A driver that some run reaches. -/
def Reachable [Target] (d : Driver) : Prop := ∃ ops calls, Runs ops calls d

/-- The command that the call gets accepted. -/
def Call.accepted? : Call → Option Command
  | .submit cmd (.ok ()) => some cmd
  | _ => none

/-- The bytes that the call appends to `rx`, when it does not overflow. -/
def Call.pushed : Call → List UInt8
  | .pushRx bytes (.ok _) => bytes
  | _ => []

/-- The event or response that the call returns. -/
def Call.output? : Call → Option Output
  | .poll (.response r) => some (.response r)
  | .poll (.event e) => some (.event e)
  | _ => none

/-- What the call returns when it is a poll. -/
def Call.poll? : Call → Option Poll
  | .poll p => some p
  | _ => none

/-- The event that the poll returns. -/
def Poll.event? : Poll → Option Event
  | .event e => some e
  | _ => none

/-- The event that the call returns. -/
def Call.event? (c : Call) : Option Event := c.poll?.bind Poll.event?

/-- The accepted commands, in order. -/
def accepted (calls : List Call) : List Command := calls.filterMap Call.accepted?

/-- The bytes pushed, in order. -/
def pushed (calls : List Call) : List UInt8 := calls.flatMap Call.pushed

/-- The events and responses returned, in order. -/
def outputs (calls : List Call) : List Output := calls.filterMap Call.output?

@[simp] theorem accepted_nil : accepted [] = [] := rfl

@[simp] theorem accepted_append (cs ds : List Call) :
    accepted (cs ++ ds) = accepted cs ++ accepted ds := List.filterMap_append

@[simp] theorem pushed_nil : pushed [] = [] := rfl

@[simp] theorem pushed_append (cs ds : List Call) : pushed (cs ++ ds) = pushed cs ++ pushed ds :=
  List.flatMap_append

@[simp] theorem outputs_nil : outputs [] = [] := rfl

@[simp] theorem outputs_append (cs ds : List Call) :
    outputs (cs ++ ds) = outputs cs ++ outputs ds := List.filterMap_append

theorem accepted_singleton (c : Call) : accepted [c] = c.accepted?.toList := by
  simp [accepted, List.filterMap_cons]; cases c.accepted? <;> rfl

theorem pushed_singleton (c : Call) : pushed [c] = c.pushed := by simp [pushed]

theorem outputs_singleton (c : Call) : outputs [c] = c.output?.toList := by
  simp [outputs, List.filterMap_cons]; cases c.output? <;> rfl

@[simp] theorem output?_pollOf (o : Option Output) : (Call.poll (pollOf o)).output? = o := by
  rcases o with _ | r | e <;> rfl

end Rylr998
