import Rylr998.Host.Equiv.Task
import Rylr998.Host.Handle

/-!
# What an action does

`System.step_spec` says once what an action of the handle, of a channel or of the task can do. A run
of the system is a run of its task (`SystemRuns.task`).
-/

namespace Rylr998.Tokio

namespace System

/-- What an action can do. -/
inductive StepSpec [Target] (s : System) : Action → Shown → System → Prop
  | request (cmd : OwnedCommand) : s.handle = .ready →
    StepSpec s (.request cmd) {} { s with handle := .sending ⟨cmd, s.next⟩, next := s.next + 1 }
  | enqueue {job : Job} {jobs : Channel Job 8} : s.handle = .sending job →
    s.jobs.send? job = some jobs → s.task.place ≠ .ended →
    StepSpec s .enqueue {} { s with handle := .waiting job.reply, jobs, reply := none }
  | listen : s.handle = .ready → StepSpec s .listen {} { s with handle := .listening }
  | receive {e : Event} {events : Channel Event 64} : s.handle = .listening →
    s.events.recv? = some (e, events) →
    StepSpec s .receive { received := some e } { s with handle := .ready, events }
  /-- A method returns without an event. -/
  | back {a : Action} {r : Option (Except Error OwnedResponse)} :
    a = .gone ∨ a = .answer ∨ a = .expire ∨ a = .quiet →
    (∀ job, s.handle = .sending job → s.task.place = .ended) →
    StepSpec s a { answer := r } { s with handle := .ready }
  | takeJob {job : Job} {jobs : Channel Job 8} {eff : Effect} {task : Task} :
    s.jobs.recv? = some (job, jobs) → s.task.step (.job job) = .ok (eff, task) →
    StepSpec s .takeJob { poll := eff.poll } { s with jobs, task, reply := s.deliver eff.reply }
  | takeEvent {e : Event} {place : Place} {events : Channel Event 64} :
    s.task.place.sending = some (e, place) → s.events.send? e = some events →
    StepSpec s .takeEvent {} { s with events, task := ⟨s.task.driver, place⟩ }
  | task {i : Input} {eff : Effect} {task : Task} : i.isOwn = true →
    s.task.step i = .ok (eff, task) →
    StepSpec s (.task i) { poll := eff.poll } { s with task, reply := s.deliver eff.reply }

variable [Target] {s s' : System} {a : Action} {shown : Shown}

theorem act_inv {i : Input} (h : s.act i = .ok (shown, s')) :
    ∃ eff task, s.task.step i = .ok (eff, task) ∧ shown = { poll := eff.poll } ∧
      s' = { s with task, reply := s.deliver eff.reply } := by
  unfold act at h
  obtain ⟨⟨eff, task⟩, hstep, h⟩ := Except.bind_eq_ok.mp h
  cases h
  exact ⟨eff, task, hstep, rfl, rfl⟩

theorem takeJob_spec (h : s.takeJob = .ok (shown, s')) : StepSpec s .takeJob shown s' := by
  unfold takeJob at h
  cases hrecv : s.jobs.recv? with
  | none => rw [hrecv] at h; cases h
  | some p =>
    rw [hrecv] at h
    obtain ⟨eff, task, hstep, rfl, rfl⟩ := act_inv h
    exact .takeJob hrecv hstep

theorem takeEvent_spec (h : s.takeEvent = .ok (shown, s')) : StepSpec s .takeEvent shown s' := by
  unfold takeEvent at h
  cases hsending : s.task.place.sending with
  | none => rw [hsending] at h; cases h
  | some p =>
    obtain ⟨e, place⟩ := p
    rw [hsending] at h
    cases hsend : s.events.send? e with
    | none => simp only [hsend] at h; cases h
    | some events =>
      simp only [hsend] at h
      obtain ⟨eff, task, hstep, rfl, rfl⟩ := act_inv h
      cases (Task.step_sent hsending).symm.trans hstep
      exact .takeEvent hsending hsend

theorem enqueue_spec {job : Job} (hjob : s.handle = .sending job)
    (h : s.enqueue job = .ok (shown, s')) : StepSpec s .enqueue shown s' := by
  unfold enqueue at h
  cases hsend : s.jobs.send? job with
  | none => rw [hsend] at h; cases h
  | some jobs =>
    simp only [hsend] at h
    split_ifs at h with hended
    cases h
    exact .enqueue hjob hsend hended

theorem gone_spec (h : s.gone = .ok (shown, s')) : StepSpec s .gone shown s' := by
  unfold gone at h
  by_cases hended : s.task.place = .ended
  · rw [if_pos hended] at h
    have hback {r : Option (Except Error OwnedResponse)} (h : s.back r = .ok (shown, s')) :
        StepSpec s .gone shown s' := by
      cases h
      exact .back (by simp) fun _ _ => hended
    cases hhandle : s.handle with
    | ready => simp only [hhandle] at h; cases h
    | sending job =>
      simp only [hhandle] at h
      exact hback h
    | waiting reply =>
      simp only [hhandle] at h
      split_ifs at h
      exact hback h
    | listening =>
      simp only [hhandle] at h
      split_ifs at h
      exact hback h
  · rw [if_neg hended] at h
    cases h

theorem step_spec (h : s.step a = .ok (shown, s')) : StepSpec s a shown s' := by
  unfold step at h
  -- a method that is waiting for something else than the job channel returns
  have hback {r : Option (Except Error OwnedResponse)} {handle : Handle}
      (ha : a = .gone ∨ a = .answer ∨ a = .expire ∨ a = .quiet)
      (hhandle : s.handle = handle) (hne : ∀ job, handle ≠ .sending job)
      (h : s.back r = .ok (shown, s')) : StepSpec s a shown s' := by
    cases h
    exact .back ha fun job hjob => absurd (hhandle.symm.trans hjob) (hne job)
  cases a with
  | takeJob => exact takeJob_spec (by cases hhandle : s.handle <;> simpa [hhandle] using h)
  | takeEvent => exact takeEvent_spec (by cases hhandle : s.handle <;> simpa [hhandle] using h)
  | gone => exact gone_spec (by cases hhandle : s.handle <;> simpa [hhandle] using h)
  | task i =>
    have hown : (if i.isOwn then s.act i else .error .stuck) = .ok (shown, s') := by
      cases hhandle : s.handle <;> simpa [hhandle] using h
    split_ifs at hown with hi
    obtain ⟨eff, task, hstep, rfl, rfl⟩ := act_inv hown
    exact .task hi hstep
  | request cmd =>
    cases hhandle : s.handle with
    | ready => simp only [hhandle] at h; cases h; exact .request cmd hhandle
    | sending | waiting | listening => simp only [hhandle] at h; cases h
  | enqueue =>
    cases hhandle : s.handle with
    | sending job => simp only [hhandle] at h; exact enqueue_spec hhandle h
    | ready | waiting | listening => simp only [hhandle] at h; cases h
  | answer =>
    cases hhandle : s.handle with
    | waiting reply =>
      simp only [hhandle] at h
      split_ifs at h
      exact hback (by simp) hhandle (by simp) h
    | ready | sending | listening => simp only [hhandle] at h; cases h
  | expire =>
    cases hhandle : s.handle with
    | waiting reply => simp only [hhandle] at h; exact hback (by simp) hhandle (by simp) h
    | ready | sending | listening => simp only [hhandle] at h; cases h
  | listen =>
    cases hhandle : s.handle with
    | ready => simp only [hhandle] at h; cases h; exact .listen hhandle
    | sending | waiting | listening => simp only [hhandle] at h; cases h
  | receive =>
    cases hhandle : s.handle with
    | listening =>
      simp only [hhandle] at h
      cases hrecv : s.events.recv? with
      | none => simp only [hrecv] at h; cases h
      | some p => simp only [hrecv] at h; cases h; exact .receive hhandle hrecv
    | ready | sending | waiting => simp only [hhandle] at h; cases h
  | quiet =>
    cases hhandle : s.handle with
    | listening => simp only [hhandle] at h; exact hback (by simp) hhandle (by simp) h
    | ready | sending | waiting => simp only [hhandle] at h; cases h

end System

/-! ### The task of the system -/

/-- What the event channel has taken has been received or is still there. -/
structure Delivered (shown : List Shown) (es : List Effect) (s : System) : Prop where
  polls : shown.filterMap Shown.poll = es.filterMap Effect.poll
  events : shown.filterMap Shown.received ++ s.events.queue = es.filterMap Effect.sent

theorem System.StepSpec.task_step [Target] {s s' : System} {a : Action} {shown : Shown}
    (h : System.StepSpec s a shown s') :
    (s'.task = s.task ∧ shown.poll = none ∧
        shown.received.toList ++ s'.events.queue = s.events.queue) ∨
      ∃ i eff, i ≠ .closed ∧ s.task.step i = .ok (eff, s'.task) ∧ shown.poll = eff.poll ∧
        shown.received = none ∧ s'.events.queue = s.events.queue ++ eff.sent.toList := by
  cases h with
  | request | enqueue | listen | back => exact Or.inl ⟨rfl, rfl, rfl⟩
  | receive _ hrecv => exact Or.inl ⟨rfl, rfl, (Channel.recv?_eq_some_iff.mp hrecv).symm⟩
  | @takeJob job jobs eff task _ hstep =>
    have hsent : eff.sent = none := (Task.step_spec hstep).sent_eq_none (by simp)
    exact Or.inr ⟨.job job, eff, by simp, hstep, rfl, rfl, by simp [hsent]⟩
  | takeEvent hsending hsend =>
    exact Or.inr ⟨.sent, _, by simp, Task.step_sent hsending, rfl, rfl,
      (Channel.send?_eq_some_iff.mp hsend).2⟩
  | @task i eff task hown hstep =>
    have hi : i ≠ .closed ∧ i ≠ .sent := by
      constructor
      · rintro rfl
        cases hown
      · rintro rfl
        cases hown
    have hsent : eff.sent = none := (Task.step_spec hstep).sent_eq_none hi.2
    exact Or.inr ⟨i, eff, hi.1, hstep, rfl, rfl, by simp [hsent]⟩

/-- **A run of the system is a run of its task**, and the handle keeps the event channel open. -/
theorem SystemRuns.task [Target] {as : List Action} {shown : List Shown} {s : System}
    (h : SystemRuns as shown s) :
    ∃ is es, TaskRuns is es s.task ∧ .closed ∉ is ∧ Delivered shown es s := by
  have hnew : TaskRuns [] [] System.fromPort.task := rfl
  refine Component.run_induction (P := fun _ shown s =>
    ∃ is es, TaskRuns is es s.task ∧ .closed ∉ is ∧ Delivered shown es s)
    ⟨[], [], hnew, by simp, rfl, rfl⟩ ?_ as shown s h
  rintro as shown s a shown₁ s' - ⟨is, es, hr, hopen, hpolls, hevents⟩ hstep
  rcases (System.step_spec hstep).task_step with
    ⟨htask, hpoll, hqueue⟩ | ⟨i, eff, hi, htask, hpoll, hreceived, hqueue⟩
  · refine ⟨is, es, by rwa [htask], hopen, ?_, ?_⟩
    · rw [Component.filterMap_concat, hpoll, ← hpolls]
      exact List.append_nil _
    · rw [← hevents, Component.filterMap_concat, ← hqueue, List.append_assoc]
  · refine ⟨is ++ [i], es ++ [eff], Component.run_concat hr htask, by simp [hopen, hi.symm], ?_, ?_⟩
    · rw [Component.filterMap_concat, Component.filterMap_concat, hpolls, hpoll]
    · rw [Component.filterMap_concat, Component.filterMap_concat, ← hevents, hqueue, hreceived,
        Option.toList_none, List.append_nil, List.append_assoc]

end Rylr998.Tokio
