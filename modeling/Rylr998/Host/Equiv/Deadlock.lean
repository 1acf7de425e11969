import Rylr998.Host.Equiv.Handle

/-!
# Handle and task wait for each other

`request` has a deadline for the reply, but none for its `cmd_tx.send`. When the job channel is full
of requests that have timed out and the event channel of events that nobody has received, the next
request waits for the task to take a job, and the task for the handle to receive an event
(`System.Deadlocked`). No action is possible then (`System.Deadlocked.stuck`). `System.Locks` says
which actions lead there, and `never_deadlocks_iff` that these are the only ones.
-/

namespace Rylr998.Tokio

/-- A task that is sending an event waits for nothing else. -/
theorem Task.step_of_sending [Target] {t : Task} {i : Input} (h : t.place.sending ≠ none)
    (hsent : i ≠ .sent) (hclosed : i ≠ .closed) : t.step i = .error .stuck := by
  obtain ⟨d, place⟩ := t
  cases place with
  | idleSend e =>
    cases i with
    | sent => exact absurd rfl hsent
    | closed => exact absurd rfl hclosed
    | job | noJob | read | elapsed | written | poll => rfl
  | jobSend job e =>
    cases i with
    | sent => exact absurd rfl hsent
    | closed => exact absurd rfl hclosed
    | job | noJob | read | elapsed | written | poll => rfl
  | selecting | idleDrain | jobDrain | jobWrite | jobRead | ended => exact absurd rfl h

/-- The polls after which the task has an event to send. -/
def Task.Yields [Target] (t : Task) : Prop :=
  (t.place = .idleDrain ∨ ∃ job, t.place = .jobDrain job) ∧ t.driver.Sent ∧
    EventFirst t.driver.mode t.driver.rx.data

/-- After a step of its own the task has an event to send when it has just polled one. -/
theorem Task.sending_step_iff [Target] {t t' : Task} {i : Input} {eff : Effect}
    (hi : i.isOwn = true) (h : t.step i = .ok (eff, t')) :
    t'.place.sending ≠ none ↔ i = .poll ∧ t.Yields := by
  constructor
  · intro hsending
    have hevent {d d' : Driver} {e : Event} (hpoll : d.poll = .ok (.event e, d')) :
        d.Sent ∧ EventFirst d.mode d.rx.data := by
      have hsent : d.Sent := Driver.sent_of_poll_ne hpoll (by simp)
      exact ⟨hsent, (Driver.poll_event_iff hsent).mp ⟨e, d', hpoll⟩⟩
    cases step_spec h with
    | sent | unsent => cases hi
    | refuse | accept | finish | unread | written | giveUp | write | answer | drained =>
      exact absurd rfl hsending
    | push hafter => exact absurd (Place.sending_of_afterRead hafter) hsending
    | @idlePoll d d' p hpoll =>
      cases p with
      | event e => exact ⟨rfl, Or.inl rfl, hevent hpoll⟩
      | idle | needTx | response => exact absurd rfl hsending
    | @event d d' job e hpoll => exact ⟨rfl, Or.inr ⟨job, rfl⟩, hevent hpoll⟩
  · rintro ⟨rfl, hplace, hsent, hfirst⟩
    obtain ⟨e, d₁, hpoll⟩ := (Driver.poll_event_iff hsent).mpr hfirst
    have hne {p : Poll} {d' : Driver} (hp : t.driver.poll = .ok (p, d')) : p = .event e := by
      cases hpoll.symm.trans hp
      rfl
    cases step_spec h with
    | finish hfin => cases hfin
    | giveUp hgive => cases hgive
    | write hp | answer hp | drained hp => cases hne hp
    | idlePoll hp => rw [hne hp]; simp [Place.afterIdlePoll, Place.sending]
    | event hp => simp [Place.sending]

theorem Task.step_of_yields [Target] {t : Task} (h : t.Yields) :
    ∃ eff t', t.step .poll = .ok (eff, t') := by
  obtain ⟨d, place⟩ := t
  obtain ⟨hplace, hsent, hfirst⟩ := h
  obtain ⟨e, d', hpoll⟩ := (Driver.poll_event_iff hsent).mpr hfirst
  have hpoll : d.poll = .ok (.event e, d') := hpoll
  rcases hplace with hplace | ⟨job, hplace⟩
  · obtain rfl : place = .idleDrain := hplace
    refine ⟨{ poll := some (.event e) }, ⟨d', .idleSend e⟩, ?_⟩
    show pollIdle d = _
    rw [pollIdle, hpoll]
    rfl
  · obtain rfl : place = .jobDrain job := hplace
    refine ⟨{ poll := some (.event e) }, ⟨d', .jobSend job e⟩, ?_⟩
    show pollJob d job = _
    rw [pollJob, hpoll]
    rfl

namespace System

/-- The handle waits for room in the job channel, and the task for room in the event channel. -/
structure Deadlocked (s : System) : Prop where
  sending : ∃ job, s.handle = .sending job
  jobs : s.jobs.Full
  blocked : s.task.place.sending ≠ none
  events : s.events.Full

/-- The action completes the circle: a request while the task waits for room in the event channel,
or a poll that returns an event while a request waits for room in the job channel. -/
def Locks [Target] (s : System) (a : Action) : Prop :=
  s.jobs.Full ∧ s.events.Full ∧
    ((∃ cmd, a = .request cmd) ∧ s.handle = .ready ∧ s.task.place.sending ≠ none ∨
      a = .task .poll ∧ (∃ job, s.handle = .sending job) ∧ s.task.Yields)

variable [Target] {s s' : System} {a : Action} {shown : Shown}

theorem Locks.action (h : s.Locks a) : (∃ cmd, a = .request cmd) ∨ a = .task .poll := by
  rcases h with ⟨-, -, ⟨ha, -⟩ | ⟨ha, -⟩⟩
  · exact Or.inl ha
  · exact Or.inr ha

/-- Nobody gets out of a deadlock. -/
theorem Deadlocked.stuck (h : s.Deadlocked) (a : Action) : s.step a = .error .stuck := by
  obtain ⟨handle, jobs, events, task, reply, next⟩ := s
  obtain ⟨⟨job, hjob⟩, hjobs, hblocked, hevents⟩ := h
  obtain rfl : handle = .sending job := hjob
  have hact {jobs' : Channel Job 8} {i : Input} (hsent : i ≠ .sent) (hclosed : i ≠ .closed) :
      act ⟨.sending job, jobs', events, task, reply, next⟩ i = .error .stuck := by
    rw [act, Task.step_of_sending hblocked hsent hclosed]
    rfl
  cases a with
  | enqueue =>
    show enqueue _ job = _
    rw [enqueue, show jobs.send? job = none from Channel.send?_eq_none_iff.mpr hjobs]
  | takeJob =>
    show takeJob _ = _
    unfold takeJob
    cases hrecv : jobs.recv? with
    | none => rfl
    | some p => exact hact (by simp) (by simp)
  | takeEvent =>
    show takeEvent _ = _
    unfold takeEvent
    cases hsending : task.place.sending with
    | none => exact absurd hsending hblocked
    | some p => simp only [show events.send? p.1 = none from Channel.send?_eq_none_iff.mpr hevents]
  | task i =>
    show (if i.isOwn then _ else _) = _
    split_ifs with hi
    · refine hact ?_ ?_
      · rintro rfl
        cases hi
      · rintro rfl
        cases hi
    · rfl
  | gone =>
    show gone _ = _
    apply if_neg
    intro hended
    exact hblocked (by rw [show task.place = .ended from hended]; rfl)
  | request | answer | expire | listen | receive | quiet => rfl

/-- **How a deadlock comes about.** -/
theorem deadlocked_step_iff (h : s.step a = .ok (shown, s')) : s'.Deadlocked ↔ s.Locks a := by
  cases step_spec h with
  | request cmd hhandle =>
    constructor
    · intro hdead
      exact ⟨hdead.jobs, hdead.events, Or.inl ⟨⟨cmd, rfl⟩, hhandle, hdead.blocked⟩⟩
    · rintro ⟨hjobs, hevents, ⟨-, -, hblocked⟩ | ⟨ha, -⟩⟩
      · exact ⟨⟨_, rfl⟩, hjobs, hblocked, hevents⟩
      · cases ha
  | enqueue | listen | receive =>
    refine iff_of_false ?_ fun hlocks => by simpa using hlocks.action
    rintro ⟨⟨job, hjob⟩, -⟩
    cases hjob
  | back ha =>
    refine iff_of_false ?_ ?_
    · rintro ⟨⟨job, hjob⟩, -⟩
      cases hjob
    · intro hlocks
      rcases hlocks.action with ⟨cmd, rfl⟩ | rfl <;> simp at ha
  | @takeJob job jobs eff task hrecv =>
    refine iff_of_false ?_ fun hlocks => by simpa using hlocks.action
    intro hdead
    exact Channel.not_full_of_recv? hrecv hdead.jobs
  | takeEvent hsending =>
    refine iff_of_false ?_ fun hlocks => by simpa using hlocks.action
    intro hdead
    exact hdead.blocked (Place.sending_of_sending hsending)
  | @task i eff task hi hstep =>
    have hsending := Task.sending_step_iff hi hstep
    constructor
    · intro hdead
      obtain ⟨rfl, hyields⟩ := hsending.mp hdead.blocked
      exact ⟨hdead.jobs, hdead.events, Or.inr ⟨rfl, hdead.sending, hyields⟩⟩
    · rintro ⟨hjobs, hevents, ⟨⟨cmd, ha⟩, -⟩ | ⟨ha, hhandle, hyields⟩⟩
      · cases ha
      · obtain rfl := Action.task.inj ha
        exact ⟨hhandle, hjobs, hsending.mpr ⟨rfl, hyields⟩, hevents⟩

/-- An action that leads to a deadlock is possible. -/
theorem step_of_locks (h : s.Locks a) : ∃ shown s', s.step a = .ok (shown, s') := by
  obtain ⟨handle, jobs, events, task, reply, next⟩ := s
  rcases h with ⟨-, -, ⟨⟨cmd, rfl⟩, hhandle, -⟩ | ⟨rfl, ⟨job, hhandle⟩, hyields⟩⟩
  · obtain rfl : handle = .ready := hhandle
    exact ⟨_, _, rfl⟩
  · obtain ⟨eff, t', hstep⟩ := Task.step_of_yields hyields
    have hstep : task.step .poll = .ok (eff, t') := hstep
    obtain rfl : handle = .sending job := hhandle
    refine ⟨{ poll := eff.poll }, ⟨.sending job, jobs, events, t', ?_, next⟩, ?_⟩
    rotate_left
    · show act _ .poll = _
      rw [act, hstep]
      rfl

end System

/-- Handle and task never wait for each other in the run with the actions `as`. -/
def NeverDeadlocks [Target] (as : List Action) : Prop :=
  ∀ pre shown s, pre <+: as → SystemRuns pre shown s → ¬ s.Deadlocked

/-- **Deadlocks.** Handle and task never wait for each other exactly when no action of the run
completes the circle. -/
theorem never_deadlocks_iff [Target] (as : List Action) : NeverDeadlocks as ↔
    ∀ pre a shown s, pre ++ [a] <+: as → SystemRuns pre shown s → ¬ s.Locks a := by
  constructor
  · intro hnever pre a shown s hpre hr hlocks
    obtain ⟨shown', s', hstep⟩ := System.step_of_locks hlocks
    have hr' : SystemRuns (pre ++ [a]) (shown ++ [shown']) s' := Component.run_concat hr hstep
    exact hnever _ _ s' hpre hr' ((System.deadlocked_step_iff hstep).mpr hlocks)
  · intro hnever pre shown s hpre hr
    refine Component.run_induction (P := fun pre _ s => pre <+: as → ¬ s.Deadlocked)
      (fun _ hdead => hdead.blocked rfl) ?_ pre shown s hr hpre
    intro pre shown s a shown' s' hr _ hstep hpre hdead
    exact hnever pre a shown s hpre hr ((System.deadlocked_step_iff hstep).mp hdead)

/-- A caller that makes no request while eight jobs wait for the task never gets stuck. -/
theorem never_deadlocks_of_room [Target] {as : List Action}
    (hroom : ∀ pre cmd shown s, pre ++ [.request cmd] <+: as → SystemRuns pre shown s →
      ¬ s.jobs.Full) : NeverDeadlocks as := by
  intro pre shown s hpre hr hdead
  obtain ⟨job, hhandle⟩ := hdead.sending
  -- a request that waits for the job channel waits for the task only
  refine Component.run_induction (P := fun pre _ s => pre <+: as →
    ∀ job, s.handle = .sending job → ¬ s.jobs.Full) ?_ ?_ pre shown s hr hpre job hhandle hdead.jobs
  · intro _ job hjob
    cases hjob
  · intro pre shown s a shown' s' hr ih hstep hpre job hjob hfull
    have hbefore := ih ((List.prefix_append pre [a]).trans hpre)
    cases System.step_spec hstep with
    | request cmd => exact hroom pre cmd shown s hpre hr hfull
    | enqueue | listen | receive | back => cases hjob
    | takeJob hrecv => exact Channel.not_full_of_recv? hrecv hfull
    | takeEvent | task => exact hbefore job hjob hfull

section

attribute [local instance] Target.host

/-- Thirty-two `+READY` lines in one read. -/
def readyChunk : Chunk := ⟨(List.replicate 32 (utf8 "+READY\r\n")).flatten, by decide +kernel⟩

/-- The task takes the lines of one read and sends them to the event channel. -/
def flood : List Action :=
  .task (.read (.ok readyChunk)) ::
    (List.replicate 32 [.task .poll, .takeEvent]).flatten ++ [.task .poll]

/-- A command whose reply the caller does not wait for. -/
def givenUp : List Action := [.request .ping, .enqueue, .expire]

/-- After 65 events that nobody has received, the ninth command waits for room in the job
channel. -/
def locking : List Action :=
  flood ++ flood ++ [.task (.read (.ok readyChunk)), .task .poll] ++
    (List.replicate 8 givenUp).flatten ++ [.request .ping]

/-- The ninth command waits forever. -/
theorem tokio_deadlocks : ¬ ∀ as, NeverDeadlocks as := by
  intro hnever
  have hrun : (Component.run System.step .fromPort locking).map
      (fun p => decide (p.2.handle = .sending ⟨.ping, 8⟩ ∧ p.2.jobs.Full ∧
        p.2.task.place.sending ≠ none ∧ p.2.events.Full)) = .ok true := by
    decide +kernel
  obtain ⟨⟨shown, s⟩, hr, hdead⟩ := Except.map_eq_ok.mp hrun
  obtain ⟨hhandle, hjobs, hblocked, hevents⟩ := of_decide_eq_true hdead
  exact hnever locking locking shown s (List.prefix_refl _) hr
    ⟨⟨_, hhandle⟩, hjobs, hblocked, hevents⟩

end

end Rylr998.Tokio
