import Rylr998.Host.Task
import Rylr998.Lib.Channel

/-!
# The handle of the async radio

`AsyncRadio` of `rylr998_tokio` with its background task and the two channels between them. An
action is a step of the handle, of a channel or of the task, and they happen in any order. There is
one caller and it keeps the handle. Time is not modelled: a `timeout` may end at any moment.
-/

namespace Rylr998.Tokio

/-- Where the handle is. -/
inductive Handle where
  /-- No method is being called. -/
  | ready
  /-- In the `cmd_tx.send` of `request`. -/
  | sending (job : Job)
  /-- In the `timeout(timeout, reply_rx)` of `request`. -/
  | waiting (reply : Nat)
  /-- In the `timeout(timeout, event_rx.recv())` of `next_event`. -/
  | listening
  deriving DecidableEq

/-- The handle, the task and what is between them. -/
structure System where
  handle : Handle
  /-- `mpsc::channel::<Job>(8)` -/
  jobs : Channel Job 8
  /-- `mpsc::channel::<OwnedEvent>(64)` -/
  events : Channel Event 64
  task : Task
  /-- What has come through the `oneshot` channel of the request in progress. -/
  reply : Option (Except Error OwnedResponse)
  /-- The number of the next job. -/
  next : Nat
  deriving DecidableEq

inductive Action where
  /-- A command method is called: `request` builds a job. -/
  | request (cmd : OwnedCommand)
  /-- The job channel takes the job. -/
  | enqueue
  /-- The reply to the request comes, and the method returns. -/
  | answer
  /-- The wait for the reply times out. -/
  | expire
  /-- `next_event` is called. -/
  | listen
  /-- `next_event` returns the next event. -/
  | receive
  /-- `next_event` times out. -/
  | quiet
  /-- The method finds that the task has returned. -/
  | gone
  /-- The task takes the next job. -/
  | takeJob
  /-- The event channel takes the event that the task is sending. -/
  | takeEvent
  /-- The task goes on by itself, or with an answer of the port or of the time. -/
  | task (i : Input)
  deriving DecidableEq

/-- What an action shows outside. -/
structure Shown where
  /-- What `Driver::poll` has returned. -/
  poll : Option Poll := none
  /-- The event that `next_event` returns. -/
  received : Option Event := none
  /-- What `request` returns. -/
  answer : Option (Except Error OwnedResponse) := none
  deriving DecidableEq

/-- The inputs that come from the port or from the time, and the polls. -/
def Input.isOwn : Input → Bool
  | .read _ | .elapsed | .written _ | .poll => true
  | .job _ | .noJob | .sent | .closed => false

namespace System

/-- `AsyncRadio::from_port` -/
def fromPort : System := ⟨.ready, .empty, .empty, .spawned, none, 0⟩

/-- A reply reaches the request in progress. The reply to a request that has timed out is lost. -/
def deliver (s : System) : Option (Job × Except Error OwnedResponse) →
    Option (Except Error OwnedResponse)
  | none => s.reply
  | some (job, r) => if s.handle = .waiting job.reply then some r else s.reply

/-- The task makes a step. -/
def act [Target] (s : System) (i : Input) : Except Stop (Shown × System) := do
  let (eff, task) ← s.task.step i
  return ({ poll := eff.poll }, { s with task, reply := s.deliver eff.reply })

/-- The task takes the next job. -/
def takeJob [Target] (s : System) : Except Stop (Shown × System) :=
  match s.jobs.recv? with
  | some (job, jobs) => act { s with jobs } (.job job)
  | none => .error .stuck

/-- The event channel takes the event that the task is sending. -/
def takeEvent [Target] (s : System) : Except Stop (Shown × System) :=
  match s.task.place.sending with
  | some (e, _) =>
    match s.events.send? e with
    | some events => act { s with events } .sent
    | none => .error .stuck
  | none => .error .stuck

/-- `cmd_tx.send(job).await` goes through. -/
def enqueue (s : System) (job : Job) : Except Stop (Shown × System) :=
  match s.jobs.send? job with
  | some jobs =>
    if s.task.place = .ended then .error .stuck
    else return ({}, { s with handle := .waiting job.reply, jobs, reply := none })
  | none => .error .stuck

/-- The method returns without an event. -/
def back (s : System) (answer : Option (Except Error OwnedResponse)) :
    Except Stop (Shown × System) :=
  return ({ answer }, { s with handle := .ready })

/-- The method finds that the task has returned, once nothing of it is left to take. -/
def gone (s : System) : Except Stop (Shown × System) :=
  if s.task.place = .ended then
    match s.handle with
    | .sending _ => s.back (some (.error .closed))
    | .waiting _ => if s.reply = none then s.back (some (.error .closed)) else .error .stuck
    | .listening => if s.events.queue = [] then s.back none else .error .stuck
    | .ready => .error .stuck
  else .error .stuck

/-- One action. -/
def step [Target] (s : System) (a : Action) : Except Stop (Shown × System) :=
  match s.handle, a with
  | _, .takeJob => s.takeJob
  | _, .takeEvent => s.takeEvent
  | _, .task i => if i.isOwn then s.act i else .error .stuck
  | _, .gone => s.gone
  -- `request`
  | .ready, .request cmd =>
    return ({}, { s with handle := .sending ⟨cmd, s.next⟩, next := s.next + 1 })
  | .sending job, .enqueue => s.enqueue job
  | .waiting _, .answer => if s.reply = none then .error .stuck else s.back s.reply
  | .waiting _, .expire => s.back (some (.error .timeout))
  -- `next_event`
  | .ready, .listen => return ({}, { s with handle := .listening })
  | .listening, .receive =>
    match s.events.recv? with
    | some (e, events) => return ({ received := some e }, { s with handle := .ready, events })
    | none => .error .stuck
  | .listening, .quiet => s.back none
  | _, _ => .error .stuck

end System

/-- The actions `as` lead from a fresh radio to `s`, and show `shown`. -/
def SystemRuns [Target] (as : List Action) (shown : List Shown) (s : System) : Prop :=
  Component.run System.step .fromPort as = .ok (shown, s)

end Rylr998.Tokio
