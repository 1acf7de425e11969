import Rylr998.Core.Equiv.Runs
import Rylr998.Host.Equiv.Pump
import Rylr998.Host.Task

/-!
# What a step of the task does

`Task.step_spec` says once what a step can do. A step makes at most one call of the driver, so a run
of the task is a run of its driver (`TaskRuns.reachable`), and outside the loop of `process_job`
everything is sent (`Task.Inv`).
-/

namespace Rylr998.Tokio

open Framing

/-- Where a read leads to. -/
def Place.afterRead : Place → Option Place
  | .selecting => some .idleDrain
  | .jobRead job => some (.jobDrain job)
  | _ => none

theorem Place.afterRead_ne {place place' : Place} (h : place.afterRead = some place') :
    place' ≠ .selecting := by
  rintro rfl
  cases place <;> cases h

theorem Place.sending_ne {place place' : Place} {e : Event} (h : place.sending = some (e, place')) :
    place' ≠ .selecting := by
  rintro rfl
  cases place <;> cases h

/-- Nothing is being sent after a read. -/
theorem Place.sending_of_afterRead {place place' : Place} (h : place.afterRead = some place') :
    place'.sending = none := by
  cases place with
  | selecting | jobRead => cases h; rfl
  | idleDrain | idleSend | jobDrain | jobWrite | jobSend | ended => cases h

/-- Nothing is being sent any more once the event is. -/
theorem Place.sending_of_sending {place place' : Place} {e : Event}
    (h : place.sending = some (e, place')) : place'.sending = none := by
  cases place with
  | idleSend | jobSend => cases h; rfl
  | selecting | idleDrain | jobDrain | jobWrite | jobRead | ended => cases h

/-- Where a poll in `run_task` leads to. -/
def Place.afterIdlePoll : Poll → Place
  | .event e => .idleSend e
  | _ => .selecting

/-- The bytes that an input brings. -/
def Input.bytes : Input → List UInt8
  | .read (.ok bytes) => bytes
  | _ => []

/-- The task returns. -/
inductive Finishes : Place → Input → Prop
  | noJob : Finishes .selecting .noJob
  | eof (h : ([] : List UInt8).length ≤ 256) : Finishes .selecting (.read (.ok ⟨[], h⟩))
  | closed (e : Event) : Finishes (.idleSend e) .closed

/-- The job is given up with an error of the port or of the time. -/
inductive GivesUp (job : Job) : Place → Input → Error → Prop
  | closed (h : ([] : List UInt8).length ≤ 256) :
    GivesUp job (.jobRead job) (.read (.ok ⟨[], h⟩)) .closed
  | failed (e : ErrorKind) : GivesUp job (.jobRead job) (.read (.error e)) (.io e)
  | elapsed : GivesUp job (.jobRead job) .elapsed .timeout
  | unwritten (n : Nat) (e : ErrorKind) :
    GivesUp job (.jobWrite job n) (.written (.error e)) (.io e)

namespace Task

/-- What a step can do. -/
inductive StepSpec [Target] : Task → Input → Effect → Task → Prop
  | refuse {d d' : Driver} {job : Job} {e : Rylr998.Error} : d.submit job.cmd = .ok (.error e, d') →
    StepSpec ⟨d, .selecting⟩ (.job job) { reply := some (job, .error (.core e)) } ⟨d', .selecting⟩
  | accept {d d' : Driver} {job : Job} : d.submit job.cmd = .ok (.ok (), d') →
    StepSpec ⟨d, .selecting⟩ (.job job) {} ⟨d', .jobDrain job⟩
  | finish {d : Driver} {place : Place} {i : Input} : Finishes place i →
    StepSpec ⟨d, place⟩ i {} ⟨d, .ended⟩
  | unread {d : Driver} {e : ErrorKind} :
    StepSpec ⟨d, .selecting⟩ (.read (.error e)) {} ⟨d, .selecting⟩
  | push {d d' : Driver} {place place' : Place} {bytes : Chunk} {r : Except Rylr998.Error Nat} :
    place.afterRead = some place' → d.pushRx bytes = .ok (r, d') →
    StepSpec ⟨d, place⟩ (.read (.ok bytes)) {} ⟨d', place'⟩
  | sent {d : Driver} {place place' : Place} {e : Event} : place.sending = some (e, place') →
    StepSpec ⟨d, place⟩ .sent { sent := some e } ⟨d, place'⟩
  | unsent {d : Driver} {job : Job} {e : Event} :
    StepSpec ⟨d, .jobSend job e⟩ .closed {} ⟨d, .jobDrain job⟩
  | idlePoll {d d' : Driver} {p : Poll} : d.poll = .ok (p, d') →
    StepSpec ⟨d, .idleDrain⟩ .poll { poll := some p } ⟨d', Place.afterIdlePoll p⟩
  | write {d d' : Driver} {job : Job} {bytes : List UInt8} : d.poll = .ok (.needTx bytes, d') →
    StepSpec ⟨d, .jobDrain job⟩ .poll { poll := some (.needTx bytes) }
      ⟨d', .jobWrite job bytes.length⟩
  | answer {d d' : Driver} {job : Job} {r : Response} : d.poll = .ok (.response r, d') →
    StepSpec ⟨d, .jobDrain job⟩ .poll
      { poll := some (.response r), reply := some (job, .ok r) } ⟨d', .selecting⟩
  | event {d d' : Driver} {job : Job} {e : Event} : d.poll = .ok (.event e, d') →
    StepSpec ⟨d, .jobDrain job⟩ .poll { poll := some (.event e) } ⟨d', .jobSend job e⟩
  | drained {d d' : Driver} {job : Job} : d.poll = .ok (.idle, d') →
    StepSpec ⟨d, .jobDrain job⟩ .poll { poll := some .idle } ⟨d', .jobRead job⟩
  | written {d d' : Driver} {job : Job} {n : Nat} : d.ackTx n = .ok d' →
    StepSpec ⟨d, .jobWrite job n⟩ (.written (.ok ())) {} ⟨d', .jobDrain job⟩
  | giveUp {d : Driver} {job : Job} {place : Place} {i : Input} {e : Error} :
    GivesUp job place i e →
    StepSpec ⟨d, place⟩ i { reply := some (job, .error e) } ⟨d, .selecting⟩

theorem inTask_eq_ok {α : Type} {x : Except Fault α} {a : α} : inTask x = .ok a ↔ x = .ok a :=
  Except.mapError_eq_ok

section Step

variable [Target] {d : Driver} {job : Job} {eff : Effect} {t t' : Task}

theorem takeJob_spec (h : takeJob d job = .ok (eff, t')) :
    StepSpec ⟨d, .selecting⟩ (.job job) eff t' := by
  unfold takeJob at h
  obtain ⟨⟨e | ⟨⟩, d'⟩, hsubmit, h⟩ := Except.bind_eq_ok.mp h
  · cases h
    exact .refuse (inTask_eq_ok.mp hsubmit)
  · cases h
    exact .accept (inTask_eq_ok.mp hsubmit)

theorem push_spec {place place' : Place} {bytes : Chunk} (hplace : place.afterRead = some place')
    (h : push d bytes place' = .ok (eff, t')) : StepSpec ⟨d, place⟩ (.read (.ok bytes)) eff t' := by
  unfold push at h
  obtain ⟨⟨r, d'⟩, hpush, h⟩ := Except.bind_eq_ok.mp h
  cases h
  exact .push hplace (inTask_eq_ok.mp hpush)

theorem pollIdle_spec (h : pollIdle d = .ok (eff, t')) :
    StepSpec ⟨d, .idleDrain⟩ .poll eff t' := by
  unfold pollIdle at h
  obtain ⟨⟨p, d'⟩, hpoll, h⟩ := Except.bind_eq_ok.mp h
  cases p with
  | event | idle | needTx | response =>
    cases h
    exact .idlePoll (inTask_eq_ok.mp hpoll)

theorem pollJob_spec (h : pollJob d job = .ok (eff, t')) :
    StepSpec ⟨d, .jobDrain job⟩ .poll eff t' := by
  unfold pollJob at h
  obtain ⟨⟨p, d'⟩, hpoll, h⟩ := Except.bind_eq_ok.mp h
  rw [inTask_eq_ok] at hpoll
  cases p with
  | needTx bytes => cases h; exact .write hpoll
  | response r => cases h; exact .answer hpoll
  | event e => cases h; exact .event hpoll
  | idle => cases h; exact .drained hpoll

theorem step_spec {i : Input} (h : t.step i = .ok (eff, t')) : StepSpec t i eff t' := by
  obtain ⟨d, place⟩ := t
  cases place with
  | selecting =>
    cases i with
    | job job => exact takeJob_spec h
    | noJob => cases h; exact .finish .noJob
    | read r =>
      rcases r with e | ⟨_ | ⟨b, bs⟩, hlen⟩
      · cases h; exact .unread
      · cases h; exact .finish (.eof hlen)
      · exact push_spec rfl h
    | elapsed | written | sent | closed | poll => cases h
  | idleDrain =>
    cases i with
    | poll => exact pollIdle_spec h
    | job | noJob | read | elapsed | written | sent | closed => cases h
  | idleSend e =>
    cases i with
    | sent => cases h; exact .sent rfl
    | closed => cases h; exact .finish (.closed e)
    | job | noJob | read | elapsed | written | poll => cases h
  | jobDrain job =>
    cases i with
    | poll => exact pollJob_spec h
    | job | noJob | read | elapsed | written | sent | closed => cases h
  | jobWrite job n =>
    cases i with
    | written r =>
      rcases r with e | ⟨⟩
      · cases h; exact .giveUp (.unwritten n e)
      · obtain ⟨d', hack, h⟩ := Except.bind_eq_ok.mp h
        cases h
        exact .written (inTask_eq_ok.mp hack)
    | job | noJob | read | elapsed | sent | closed | poll => cases h
  | jobSend job e =>
    cases i with
    | sent => cases h; exact .sent rfl
    | closed => cases h; exact .unsent
    | job | noJob | read | elapsed | written | poll => cases h
  | jobRead job =>
    cases i with
    | read r =>
      rcases r with e | ⟨_ | ⟨b, bs⟩, hlen⟩
      · cases h; exact .giveUp (.failed e)
      · cases h; exact .giveUp (.closed hlen)
      · exact push_spec rfl h
    | elapsed => cases h; exact .giveUp .elapsed
    | job | noJob | written | sent | closed | poll => cases h
  | ended =>
    cases i with
    | job | noJob | read | elapsed | written | sent | closed | poll => cases h

end Step

/-- The event that the task is sending can go into the channel. -/
theorem step_sent [Target] {t : Task} {e : Event} {place : Place}
    (h : t.place.sending = some (e, place)) :
    t.step .sent = .ok ({ sent := some e }, ⟨t.driver, place⟩) := by
  obtain ⟨d, place₀⟩ := t
  cases place₀ with
  | idleSend e₀ => cases h; rfl
  | jobSend job e₀ => cases h; rfl
  | selecting | idleDrain | jobDrain | jobWrite | jobRead | ended => cases h

/-- An event goes into the channel only when the channel takes it. -/
theorem StepSpec.sent_eq_none [Target] {t t' : Task} {i : Input} {eff : Effect}
    (h : StepSpec t i eff t') (hi : i ≠ .sent) : eff.sent = none := by
  cases h with
  | sent => exact absurd rfl hi
  | refuse | accept | finish | unread | push | unsent | idlePoll | write | answer | event
  | drained | written | giveUp => rfl

/-! ### The driver of the task -/

/-- A step makes at most one call of the driver, and hands it the bytes that have been read. -/
theorem StepSpec.driver [Target] {t t' : Task} {i : Input} {eff : Effect}
    (h : StepSpec t i eff t') : t'.driver = t.driver ∧ eff.poll = none ∧ i.bytes = [] ∨
      ∃ op c, t.driver.step op = .ok (c, t'.driver) ∧ eff.poll = c.poll? ∧ i.bytes = op.bytes := by
  have hpoll {d d' : Driver} {p : Poll} (hp : d.poll = .ok (p, d')) :
      d.step .poll = .ok (.poll p, d') :=
    Driver.step_poll_iff.mpr ⟨p, rfl, hp⟩
  cases h with
  | finish hfin => cases hfin <;> exact Or.inl ⟨rfl, rfl, rfl⟩
  | giveUp hgive => cases hgive <;> exact Or.inl ⟨rfl, rfl, rfl⟩
  | unread | sent | unsent => exact Or.inl ⟨rfl, rfl, rfl⟩
  | refuse hs => exact Or.inr ⟨.submit _, _, Except.map_eq_ok.mpr ⟨_, hs, rfl⟩, rfl, rfl⟩
  | accept hs => exact Or.inr ⟨.submit _, _, Except.map_eq_ok.mpr ⟨_, hs, rfl⟩, rfl, rfl⟩
  | push _ hp => exact Or.inr ⟨.pushRx _, _, Except.map_eq_ok.mpr ⟨_, hp, rfl⟩, rfl, rfl⟩
  | idlePoll hp => exact Or.inr ⟨.poll, _, hpoll hp, rfl, rfl⟩
  | write hp => exact Or.inr ⟨.poll, _, hpoll hp, rfl, rfl⟩
  | answer hp => exact Or.inr ⟨.poll, _, hpoll hp, rfl, rfl⟩
  | event hp => exact Or.inr ⟨.poll, _, hpoll hp, rfl, rfl⟩
  | drained hp => exact Or.inr ⟨.poll, _, hpoll hp, rfl, rfl⟩
  | written ha => exact Or.inr ⟨.ackTx _, _, Except.map_eq_ok.mpr ⟨_, ha, rfl⟩, rfl, rfl⟩

/-- What holds of the task in every reachable state. -/
structure Inv (t : Task) : Prop where
  driver : t.driver.Inv
  /-- Only a job that is about to be polled has something to send. -/
  sent : (∀ job, t.place ≠ .jobDrain job) → t.driver.Sent

theorem inv_spawned : spawned.Inv := ⟨Driver.inv_new, fun _ => Nat.le_refl _⟩

/-- A refused command is not queued. -/
theorem sameTx_of_refused {d d' : Driver} {cmd : Command} {e : Rylr998.Error}
    (h : d.submit cmd = .ok (.error e, d')) : Driver.SameTx d d' := by
  rcases Driver.submit_error_inv h with ⟨-, -, rfl⟩ | ⟨-, -, -, rfl⟩
  · exact ⟨rfl, rfl, rfl⟩
  · exact ⟨rfl, rfl, rfl⟩

theorem Inv.step [Target] {t t' : Task} {i : Input} {eff : Effect} (hinv : t.Inv)
    (h : t.step i = .ok (eff, t')) : t'.Inv := by
  have hspec := step_spec h
  have hdriver : t'.driver.Inv := by
    rcases hspec.driver with ⟨hd, -⟩ | ⟨op, c, hd, -⟩
    · rw [hd]
      exact hinv.driver
    · exact Driver.inv_step hinv.driver hd
  refine ⟨hdriver, ?_⟩
  intro hplace
  cases hspec with
  | refuse hs => exact (sameTx_of_refused hs).sent (hinv.sent (by simp))
  | accept | unsent | written => exact absurd rfl (hplace _)
  | finish hfin =>
    apply hinv.sent
    rintro job rfl
    cases hfin
  | unread => exact hinv.sent (by simp)
  | @push d d' place place' bytes r hafter hp =>
    cases place with
    | selecting => exact (Driver.pushRx_inv hp).2.1.sent (hinv.sent (by simp))
    | jobRead job =>
      obtain rfl := Option.some.inj hafter
      exact absurd rfl (hplace job)
    | idleDrain | idleSend | jobDrain | jobWrite | jobSend | ended => cases hafter
  | sent hsending =>
    apply hinv.sent
    rintro job rfl
    cases hsending
  | idlePoll hp | write hp | answer hp | event hp | drained hp => exact Driver.sent_of_poll hp
  | giveUp hgive =>
    apply hinv.sent
    rintro job rfl
    cases hgive

end Task

theorem TaskRuns.inv [Target] {is : List Input} {es : List Effect} {t : Task}
    (h : TaskRuns is es t) : t.Inv :=
  Component.run_invariant (fun _ _ _ _ hinv hs => hinv.step hs) Task.inv_spawned h

/-- **A run of the task is a run of its driver**, and what the driver's polls return is what the
steps show. -/
theorem TaskRuns.driver [Target] {is : List Input} {es : List Effect} {t : Task}
    (h : TaskRuns is es t) : ∃ ops calls, Runs ops calls t.driver ∧
      calls.filterMap Call.poll? = es.filterMap Effect.poll := by
  have hnew : Runs [] [] Task.spawned.driver := rfl
  refine Component.run_induction (P := fun _ es t => ∃ ops calls, Runs ops calls t.driver ∧
    calls.filterMap Call.poll? = es.filterMap Effect.poll) ⟨[], [], hnew, rfl⟩ ?_ is es t h
  rintro is es t i eff t' - ⟨ops, calls, hr, hpolls⟩ hstep
  rcases (Task.step_spec hstep).driver with ⟨hd, heff, -⟩ | ⟨op, c, hd, heff, -⟩
  · refine ⟨ops, calls, by rwa [hd], ?_⟩
    rw [Component.filterMap_concat, heff, hpolls]
    exact (List.append_nil _).symm
  · refine ⟨ops ++ [op], calls ++ [c], Component.run_concat hr hd, ?_⟩
    rw [Component.filterMap_concat, Component.filterMap_concat, hpolls, heff]

end Rylr998.Tokio
