import Rylr998.Host.Tokio

/-!
# The background task, step by step

`run_task` and `process_job` of `rylr998_tokio`, with all that may happen between two steps. A step
is what the task does when the thing it waits for comes (`Input`): a job, bytes, an answer of the
port, room in the event channel. It makes at most one call of the driver. Time is not modelled: a
deadline may pass at any moment, and a job carries no `timeout`.
-/

namespace Rylr998.Tokio

/-- `Job`. The number stands for the `oneshot` channel of its reply. -/
structure Job where
  cmd : OwnedCommand
  reply : Nat
  deriving DecidableEq

/-- Where the task is. -/
inductive Place where
  /-- In the `select!` of `run_task`. -/
  | selecting
  /-- In the loop over `Driver::poll` behind the read of `run_task`. -/
  | idleDrain
  /-- In the `event_tx.send` of that loop. -/
  | idleSend (e : Event)
  /-- In the loop over `Driver::poll` of `process_job`. -/
  | jobDrain (job : Job)
  /-- In the `write_all` of `n` bytes of that loop. -/
  | jobWrite (job : Job) (n : Nat)
  /-- In the `event_tx.send` of that loop. -/
  | jobSend (job : Job) (e : Event)
  /-- In the `timeout_at(deadline, port.read(buf))` of `process_job`. -/
  | jobRead (job : Job)
  /-- `run_task` has returned. -/
  | ended
  deriving DecidableEq

/-- The event being sent, and where the task goes on. -/
def Place.sending : Place → Option (Event × Place)
  | .idleSend e => some (e, .idleDrain)
  | .jobSend job e => some (e, .jobDrain job)
  | _ => none

/-- The background task. -/
structure Task where
  driver : Driver
  place : Place
  deriving DecidableEq

/-- What the task has waited for. -/
inductive Input where
  /-- `cmd_rx.recv()` yields a job. -/
  | job (job : Job)
  /-- `cmd_rx.recv()` yields `None`: the handle is gone. -/
  | noJob
  /-- A read of the port returns. -/
  | read (r : Except ErrorKind Chunk)
  /-- The deadline of the job passes before the read returns. -/
  | elapsed
  /-- `write_all` returns. -/
  | written (r : Except ErrorKind Unit)
  /-- The event channel takes the event. -/
  | sent
  /-- The event channel is closed: the handle is gone. -/
  | closed
  /-- Nothing: the task polls the driver. -/
  | poll
  deriving DecidableEq

/-- What a step shows outside. -/
structure Effect where
  /-- What `Driver::poll` has returned. -/
  poll : Option Poll := none
  /-- The event that has gone into the channel. -/
  sent : Option Event := none
  /-- The reply to a job. -/
  reply : Option (Job × Except Error OwnedResponse) := none
  deriving DecidableEq

/-- Why there is no step. -/
inductive Stop where
  /-- The task does not wait for this. -/
  | stuck
  /-- The driver panics. -/
  | panicked (f : Fault)
  deriving DecidableEq

/-- A driver operation inside a step. -/
def inTask {α : Type} (x : Except Fault α) : Except Stop α := x.mapError .panicked

namespace Task

/-- A task that has just been spawned. -/
def spawned : Task := ⟨.new, .selecting⟩

/-- `process_job` returns `r`, and `run_task` replies with it and goes back to `select!`. -/
def replied (d : Driver) (job : Job) (r : Except Error OwnedResponse) (poll : Option Poll) :
    Effect × Task :=
  ({ poll, reply := some (job, r) }, ⟨d, .selecting⟩)

/-- A job arrives: `process_job` submits its command. -/
def takeJob (d : Driver) (job : Job) : Except Stop (Effect × Task) := do
  match ← inTask (d.submit job.cmd) with
  | (.error e, d) => return replied d job (.error (.core e)) none
  | (.ok (), d) => return ({}, ⟨d, .jobDrain job⟩)

/-- Bytes arrive: the result of `push_rx` is thrown away. -/
def push (d : Driver) (bytes : Chunk) (place : Place) : Except Stop (Effect × Task) := do
  let (_, d) ← inTask (d.pushRx bytes)
  return ({}, ⟨d, place⟩)

/-- A turn of the loop over `Driver::poll` of `run_task`. -/
def pollIdle [Target] (d : Driver) : Except Stop (Effect × Task) := do
  let (p, d) ← inTask d.poll
  match p with
  | .event e => return ({ poll := some p }, ⟨d, .idleSend e⟩)
  | _ => return ({ poll := some p }, ⟨d, .selecting⟩)

/-- A turn of the loop over `Driver::poll` of `process_job`. -/
def pollJob [Target] (d : Driver) (job : Job) : Except Stop (Effect × Task) := do
  let (p, d) ← inTask d.poll
  match p with
  | .needTx bytes => return ({ poll := some p }, ⟨d, .jobWrite job bytes.length⟩)
  | .response r => return replied d job (.ok r) (some p)
  | .event e => return ({ poll := some p }, ⟨d, .jobSend job e⟩)
  | .idle => return ({ poll := some p }, ⟨d, .jobRead job⟩)

/-- One step of the task. -/
def step [Target] (t : Task) (i : Input) : Except Stop (Effect × Task) :=
  let d := t.driver
  match t.place, i with
  -- `run_task`
  | .selecting, .job job => takeJob d job
  | .selecting, .noJob => return ({}, ⟨d, .ended⟩)
  | .selecting, .read (.ok ⟨[], _⟩) => return ({}, ⟨d, .ended⟩)
  | .selecting, .read (.ok bytes) => push d bytes .idleDrain
  | .selecting, .read (.error _) => return ({}, ⟨d, .selecting⟩)
  | .idleDrain, .poll => pollIdle d
  | .idleSend e, .sent => return ({ sent := some e }, ⟨d, .idleDrain⟩)
  | .idleSend _, .closed => return ({}, ⟨d, .ended⟩)
  -- `process_job`
  | .jobDrain job, .poll => pollJob d job
  | .jobWrite job n, .written (.ok ()) => do
    let d ← inTask (d.ackTx n)
    return ({}, ⟨d, .jobDrain job⟩)
  | .jobWrite job _, .written (.error e) => return replied d job (.error (.io e)) none
  | .jobSend job e, .sent => return ({ sent := some e }, ⟨d, .jobDrain job⟩)
  | .jobSend job _, .closed => return ({}, ⟨d, .jobDrain job⟩)
  | .jobRead job, .read (.ok ⟨[], _⟩) => return replied d job (.error .closed) none
  | .jobRead job, .read (.ok bytes) => push d bytes (.jobDrain job)
  | .jobRead job, .read (.error e) => return replied d job (.error (.io e)) none
  | .jobRead job, .elapsed => return replied d job (.error .timeout) none
  | _, _ => .error .stuck

end Task

/-- The inputs `is` lead a fresh task to `t`, with the effects `es`. -/
def TaskRuns [Target] (is : List Input) (es : List Effect) (t : Task) : Prop :=
  Component.run Task.step .spawned is = .ok (es, t)

end Rylr998.Tokio
