import Rylr998.Core.Runs
import Rylr998.Core.Session

/-!
# What the host crates have in common

`rylr998-std`, `rylr998-tokio` and `rylr998-embassy` each wrap a `Driver` and a port. What the port
and the clock answer is a script (`Port`): a call uses up answers and is blocked when there is none
left (`Halt`). The three crates run the same loop over `Driver::poll` (`pollLoop`) and go back to it
after each read (`pump`); they differ in how they read, in when they give up (`Turn`), and in what
they do with the events.
-/

namespace Rylr998

/-- Why a call does not return. -/
inductive Halt where
  /-- It waits for an answer that the script does not have. -/
  | blocked
  /-- The driver panics. -/
  | panicked (f : Fault)
  deriving DecidableEq

/-- `std::io::ErrorKind`. Only two kinds are told apart from the others. -/
inductive ErrorKind where
  | wouldBlock
  | timedOut
  | other (code : Nat)
  deriving DecidableEq

/-- What one `read` puts into the buffer of 256 bytes. -/
abbrev Chunk : Type := { bytes : List UInt8 // bytes.length ≤ 256 }

/-- The answers that a port and the clock are going to give: for each `write_all` an error `ω` or
success, for each read a result `ρ`, for each look at the clock the time. -/
structure Port (ω ρ : Type) where
  writes : List (Except ω Unit)
  reads : List ρ
  clock : List Nat
  deriving DecidableEq

/-- A driver operation inside a call. -/
def onDriver {α : Type} (x : Except Fault α) : Except Halt α := x.mapError .panicked

/-- The answer of an operation of the port. -/
def answer {α : Type} : List α → Except Halt (α × List α)
  | [] => .error .blocked
  | a :: as => .ok (a, as)

theorem onDriver_eq_ok {α : Type} {x : Except Fault α} {a : α} :
    onDriver x = .ok a ↔ x = .ok a :=
  Except.mapError_eq_ok

theorem answer_eq_ok {α : Type} {l as : List α} {a : α} : answer l = .ok (a, as) ↔ l = a :: as := by
  cases l with
  | nil => exact iff_of_false (fun h => by cases h) (fun h => by cases h)
  | cons b bs =>
    rw [answer, Except.ok.injEq, Prod.mk.injEq, List.cons.injEq]

/-- How the loop over `Driver::poll` ends. -/
inductive LoopEnd (ω α : Type) where
  /-- At `Poll::Idle`. -/
  | idle
  /-- At a response that ends the call. -/
  | wanted (out : α)
  /-- `write_all` fails. -/
  | failed (e : ω)
  deriving DecidableEq

/-- The loop over `Driver::poll` when it has ended. -/
structure Looped (ω α : Type) where
  stop : LoopEnd ω α
  /-- The events that have come up, in order. -/
  events : List Event
  driver : Driver
  /-- The answers that are left for `write_all`. -/
  writes : List (Except ω Unit)

/-- The loop goes on after the event `e`. -/
def Looped.cons {ω α : Type} (e : Event) (r : Looped ω α) : Looped ω α :=
  { r with events := e :: r.events }

/-- Handing out bytes and acknowledging them all leaves fewer bytes to look at. -/
theorem Driver.ack_decreases [Target] {d d' d'' : Driver} {bytes : List UInt8}
    (hp : d.poll = .ok (.needTx bytes, d')) (ha : d'.ackTx bytes.length = .ok d'') :
    d''.tx.len - d''.txInFlight + d''.rx.len < d.tx.len - d.txInFlight + d.rx.len := by
  rcases poll_inv hp with ⟨htx, -, rfl⟩ | ⟨-, o, ho, -⟩
  · rw [ackTx_eq _ _ (Nat.le_refl _)] at ha
    obtain rfl := Except.ok.inj ha
    obtain ⟨htx', hflight, hrx, -⟩ :=
      advance_same (dropSent { d with txInFlight := d.tx.len } bytes.length)
    rw [htx', hflight, hrx]
    simp only [dropSent, HVec.len, HVec.data_dropFront, List.length_drop] at htx ⊢
    omega
  · exact absurd ho.symm (pollOf_ne_needTx o bytes)

/-- The loop over `Driver::poll`: write what is handed out and acknowledge all of it, collect the
events, and end the call at a response that `want` has a result for. -/
def pollLoop [Target] {ω α : Type} (want : Response → Option α) (d : Driver)
    (writes : List (Except ω Unit)) : Except Halt (Looped ω α) :=
  match h : d.poll with
  | .error f => .error (.panicked f)
  | .ok (.idle, d') => .ok ⟨.idle, [], d', writes⟩
  | .ok (.event e, d') =>
    have := Driver.poll_decreases h nofun
    (pollLoop want d' writes).map (Looped.cons e)
  | .ok (.response r, d') =>
    have := Driver.poll_decreases h nofun
    match want r with
    | some out => .ok ⟨.wanted out, [], d', writes⟩
    -- the driver has freed the slot, and the call goes on waiting
    | none => pollLoop want d' writes
  | .ok (.needTx bytes, d') =>
    match writes with
    | [] => .error .blocked
    -- nothing is acknowledged: the command stays in `tx`, handed out
    | .error e :: writes => .ok ⟨.failed e, [], d', writes⟩
    | .ok () :: writes =>
      match ha : d'.ackTx bytes.length with
      | .error f => .error (.panicked f)
      | .ok d'' =>
        have := Driver.ack_decreases h ha
        pollLoop want d'' writes
termination_by d.tx.len - d.txInFlight + d.rx.len

/-- The loop over `Driver::poll` when every write succeeds and no response ends it: what the polls
before `Poll::Idle` return. -/
def Driver.pollAll [Target] (d : Driver) : Except Fault (List Poll × Driver) :=
  match h : d.poll with
  | .error f => .error f
  | .ok (.idle, d') => .ok ([], d')
  | .ok (.event e, d') =>
    have := poll_decreases h nofun
    d'.pollAll.map fun q => (.event e :: q.1, q.2)
  | .ok (.response r, d') =>
    have := poll_decreases h nofun
    d'.pollAll.map fun q => (.response r :: q.1, q.2)
  | .ok (.needTx bytes, d') =>
    match ha : d'.ackTx bytes.length with
    | .error f => .error f
    | .ok d'' =>
      have := ack_decreases h ha
      d''.pollAll.map fun q => (.needTx bytes :: q.1, q.2)
termination_by d.tx.len - d.txInFlight + d.rx.len

/-! ### The loop around it -/

/-- What a crate does between two loops over `Driver::poll`: it reads once and goes on with
`.ok ()`, or gives up with an error. -/
structure Turn (ω ρ ε : Type) where
  run : Driver → Port ω ρ → Except Halt (Except ε Unit × Driver × Port ω ρ)
  /-- It goes on only after a read. -/
  reads_lt : ∀ {d d' port port'}, run d port = .ok (.ok (), d', port') →
    port'.reads.length < port.reads.length

/-- A call that has returned. -/
structure Pumped (ω ρ ε α : Type) where
  result : Except ε α
  /-- The events that have come up, in order. -/
  events : List Event
  driver : Driver
  port : Port ω ρ

/-- Loop over `Driver::poll`, take a turn, and so on, until the call returns. -/
def pump [Target] {ω ρ ε α : Type} (turn : Turn ω ρ ε) (io : ω → ε)
    (want : Response → Option (Except ε α)) (d : Driver) (port : Port ω ρ) :
    Except Halt (Pumped ω ρ ε α) :=
  match pollLoop want d port.writes with
  | .error halt => .error halt
  | .ok ⟨.wanted out, events, d, writes⟩ => .ok ⟨out, events, d, { port with writes }⟩
  | .ok ⟨.failed e, events, d, writes⟩ => .ok ⟨.error (io e), events, d, { port with writes }⟩
  | .ok ⟨.idle, events, d, writes⟩ =>
    match ht : turn.run d { port with writes } with
    | .error halt => .error halt
    | .ok (.error e, d, port) => .ok ⟨.error e, events, d, port⟩
    | .ok (.ok (), d, port') =>
      have := turn.reads_lt ht
      (pump turn io want d port').map fun p => { p with events := events ++ p.events }
termination_by port.reads.length

end Rylr998
