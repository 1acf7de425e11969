import Rylr998.Host.Equiv.Calls
import Rylr998.Host.Equiv.Handle

/-!
# No event is lost on the way to the caller

The events that the driver has returned are the ones that `next_event` has returned and, behind
them, the ones that wait for it: in the queue of the blocking radio, and in the channel of the async
radio and in the send that waits for room in it (`nothing_lost`).
-/

namespace Rylr998

/-! ### The blocking radio -/

namespace Std

variable [Target]

/-- What a call of a method does to the events. -/
theorem Radio.perform_calls {radio radio' : Radio} {m : Method} {done : Done}
    (h : radio.perform m = .ok (done, radio')) : radio.driver.Calls done.calls radio'.driver ∧
      radio.events ++ done.calls.filterMap Call.event? =
        done.event.toList ++ radio'.events := by
  cases m with
  | command α cmd timeout want =>
    obtain ⟨⟨r, radio₁⟩, hcommand, h⟩ := Except.bind_eq_ok.mp h
    cases h
    exact Radio.command_calls hcommand
  | nextEvent timeout =>
    obtain ⟨⟨r, radio₁⟩, hnext, h⟩ := Except.bind_eq_ok.mp h
    cases h
    exact Radio.nextEvent_calls hnext

/-- Calls of methods, one after the other: the events of the driver are the ones returned and the
ones in the queue. -/
theorem Radio.run_calls {port : Port} {ms : List Method} {dones : List Done} {radio : Radio}
    (h : Component.run Radio.perform (.fromPort port) ms = .ok (dones, radio)) :
    Driver.new.Calls (dones.flatMap Done.calls) radio.driver ∧
      dones.filterMap Done.event ++ radio.events =
        (dones.flatMap Done.calls).filterMap Call.event? := by
  refine Component.run_induction (P := fun _ dones radio =>
    Driver.new.Calls (dones.flatMap Done.calls) radio.driver ∧
      dones.filterMap Done.event ++ radio.events =
        (dones.flatMap Done.calls).filterMap Call.event?) ⟨.nil, rfl⟩ ?_ ms dones radio h
  rintro ms dones radio m done radio' - ⟨hcalls, hevents⟩ hstep
  obtain ⟨hcalls', hevents'⟩ := Radio.perform_calls hstep
  rw [List.flatMap_append, List.flatMap_singleton]
  refine ⟨hcalls.append hcalls', ?_⟩
  rw [Component.filterMap_concat, List.filterMap_append, ← hevents, List.append_assoc,
    List.append_assoc, hevents']

end Std

/-! ### The async radio -/

namespace Tokio

variable [Target]

/-- The event that the task is sending. -/
def Place.event? (place : Place) : Option Event := place.sending.map Prod.fst

/-- The event that the driver has returned. -/
def Effect.event? (eff : Effect) : Option Event := eff.poll.bind Poll.event?

/-- The event that the driver has returned. -/
def Shown.event? (shown : Shown) : Option Event := shown.poll.bind Poll.event?

/-- What a step of the task does to the event in its hands, while the channel is open. -/
theorem Task.step_event {t t' : Task} {i : Input} {eff : Effect} (hi : i ≠ .closed)
    (h : t.step i = .ok (eff, t')) :
    t.place.event?.toList ++ eff.event?.toList = eff.sent.toList ++ t'.place.event?.toList := by
  unfold Place.event?
  cases Task.step_spec h with
  | refuse | accept | unread | answer | write | event | drained | written => rfl
  | unsent => exact absurd rfl hi
  | finish hfin =>
    cases hfin with
    | noJob | eof => rfl
    | closed => exact absurd rfl hi
  | giveUp hgive => cases hgive <;> rfl
  | @idlePoll d d' p => cases p <;> rfl
  | @push d d' place place' bytes r hafter =>
    have hplace : place.sending = none := by
      cases place with
      | selecting | jobRead => rfl
      | idleDrain | idleSend | jobDrain | jobWrite | jobSend | ended => cases hafter
    rw [hplace, Place.sending_of_afterRead hafter]
    rfl
  | sent hsending =>
    rw [hsending, Place.sending_of_sending hsending]
    rfl

/-- The events that the task has polled are the ones it has sent and the one in its hands. -/
theorem TaskRuns.events {is : List Input} {es : List Effect} {t : Task} (h : TaskRuns is es t)
    (hopen : .closed ∉ is) :
    es.filterMap Effect.sent ++ t.place.event?.toList = es.filterMap Effect.event? := by
  refine Component.run_induction (P := fun is es t => .closed ∉ is →
    es.filterMap Effect.sent ++ t.place.event?.toList = es.filterMap Effect.event?)
    (fun _ => rfl) ?_ is es t h hopen
  intro is es t i eff t' _ ih hstep hopen
  rw [List.mem_append, not_or, List.mem_singleton] at hopen
  rw [Component.filterMap_concat, Component.filterMap_concat, ← ih hopen.1, List.append_assoc,
    List.append_assoc, Task.step_event (Ne.symm hopen.2) hstep]

/-- The actions of the system, one after the other: the events of the driver are the ones received,
the ones in the channel and the one that waits for room in it. -/
theorem SystemRuns.events {as : List Action} {shown : List Shown} {s : System}
    (h : SystemRuns as shown s) :
    (∃ calls, Driver.new.Calls calls s.task.driver ∧
        calls.filterMap Call.event? = shown.filterMap Shown.event?) ∧
      shown.filterMap Shown.received ++ s.events.queue ++ s.task.place.event?.toList =
        shown.filterMap Shown.event? := by
  obtain ⟨is, es, hr, hopen, hpolls, hsent⟩ := h.task
  have hshown : shown.filterMap Shown.event? = es.filterMap Effect.event? := by
    have hpolls := congrArg (List.filterMap Poll.event?) hpolls
    rwa [List.filterMap_filterMap, List.filterMap_filterMap] at hpolls
  constructor
  · obtain ⟨ops, calls, hruns, hcalls⟩ := hr.driver
    refine ⟨calls, ⟨ops, hruns⟩, ?_⟩
    have hcalls := congrArg (List.filterMap Poll.event?) hcalls
    rw [List.filterMap_filterMap, List.filterMap_filterMap] at hcalls
    exact hcalls.trans hshown.symm
  · rw [hsent, hshown]
    exact hr.events hopen

end Tokio

/-! ### Both -/

/-- **No event is lost.** For the blocking radio and any sequence of calls of its methods, and for
the async radio and any sequence of actions of its handle, its channels and its task: the events
that `next_event` has returned, and those that wait for it, are the events that the driver has
returned, in order. -/
theorem nothing_lost [Target] :
    (∀ {port : Std.Port} {ms : List Std.Method} {dones : List Std.Done} {radio : Std.Radio},
      Component.run Std.Radio.perform (.fromPort port) ms = .ok (dones, radio) →
        Driver.new.Calls (dones.flatMap Std.Done.calls) radio.driver ∧
        dones.filterMap Std.Done.event ++ radio.events =
          (dones.flatMap Std.Done.calls).filterMap Call.event?) ∧
    (∀ {as : List Tokio.Action} {shown : List Tokio.Shown} {s : Tokio.System},
      Tokio.SystemRuns as shown s →
        (∃ calls, Driver.new.Calls calls s.task.driver ∧
          calls.filterMap Call.event? = shown.filterMap Tokio.Shown.event?) ∧
        shown.filterMap Tokio.Shown.received ++ s.events.queue ++ s.task.place.event?.toList =
          shown.filterMap Tokio.Shown.event?) :=
  ⟨Std.Radio.run_calls, Tokio.SystemRuns.events⟩

section

attribute [local instance] Target.host

/-- A ping that is answered in one read with an event, and `next_event`. -/
def pingAndListen : List Std.Method :=
  [.command Unit .ping Std.defaultTimeout Std.waitOk, .nextEvent 1]

/-- A message that is read, polled, sent and received. -/
def listenOnce : List Tokio.Action :=
  [.task (.read (.ok ⟨utf8 "+RCV=7,2,HI,-40,9\r\n", by decide⟩)), .task .poll, .listen, .takeEvent,
    .receive]

theorem nothing_lost_ready :
    (∃ dones radio, Component.run Std.Radio.perform
        (.fromPort ⟨[.ok ()], [.ok ⟨utf8 "+READY\r\n+OK\r\n", by decide⟩], [0, 1]⟩) pingAndListen =
          .ok (dones, radio) ∧ dones.filterMap Std.Done.event = [.ready] ∧
        dones.filterMap Std.Done.event ++ radio.events =
          (dones.flatMap Std.Done.calls).filterMap Call.event?) ∧
    (∃ shown s, Tokio.SystemRuns listenOnce shown s ∧
      shown.filterMap Tokio.Shown.received = [.recv 7 (utf8 "HI") (-40) 9] ∧
      shown.filterMap Tokio.Shown.received ++ s.events.queue ++ s.task.place.event?.toList =
        shown.filterMap Tokio.Shown.event?) := by
  constructor
  · have hrun : (Component.run Std.Radio.perform (.fromPort
        ⟨[.ok ()], [.ok ⟨utf8 "+READY\r\n+OK\r\n", by decide⟩], [0, 1]⟩) pingAndListen).map
          (fun p => p.1.filterMap Std.Done.event) = .ok [.ready] := by
      decide +kernel
    obtain ⟨⟨dones, radio⟩, hr, hevents⟩ := Except.map_eq_ok.mp hrun
    exact ⟨dones, radio, hr, hevents, (nothing_lost.1 hr).2⟩
  · have hrun : (Component.run Tokio.System.step .fromPort listenOnce).map
        (fun p => p.1.filterMap Tokio.Shown.received) = .ok [.recv 7 (utf8 "HI") (-40) 9] := by
      decide +kernel
    obtain ⟨⟨shown, s⟩, hr, hevents⟩ := Except.map_eq_ok.mp hrun
    exact ⟨shown, s, hr, hevents, (nothing_lost.2 hr).2⟩

end

end Rylr998
