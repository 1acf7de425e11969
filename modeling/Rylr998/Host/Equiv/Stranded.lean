import Rylr998.Host.Equiv.Slot
import Rylr998.Host.Equiv.Task

/-!
# Events left behind

The task should go to sleep in its `select!` only when the driver has no event left to yield. It
polls until a poll returns no event, and the loop of `process_job` also ends with the response. So
an event is left in `rx` when the line before it was taken without yielding an event, or when a job
is given up before the driver is polled again (`Task.Strands`); and these steps are the only ones
that leave one (`tokio_strands_iff`).
-/

namespace Rylr998.Tokio

open Framing

/-- `line` is the first line of `rx` that is not skipped, and `rest` is behind it. -/
def FirstLine [Target] (m : Mode) (rx line rest : List UInt8) : Prop :=
  ∃ skipped, driverMachine.Skips m skipped ∧ cr ∉ line ∧
    rx = crlf.unlines skipped ++ (line ++ cr :: lf :: rest)

/-- An event is right behind a line that is taken without yielding one: a reply or a malformed
event. -/
def BuriedIdle [Target] (m : Mode) (rx : List UInt8) : Prop :=
  ∃ line rest, FirstLine m rx line rest ∧
    (m.Settles line ∧ EventFirst .idle rest ∨ Malformed line ∧ EventFirst m rest)

/-- An event is right behind the line that answers the command in flight. -/
def BuriedJob [Target] (m : Mode) (rx : List UInt8) : Prop :=
  ∃ line rest, FirstLine m rx line rest ∧ m.Settles line ∧
    (m.awaitingReadyAsOk = true ∧ line = utf8 "+READY" ∨ ∃ kind r, IsReply kind line r) ∧
    EventFirst .idle rest

namespace Task

/-- The driver has a complete event that it could still yield. -/
def HoldsEvent [Target] (t : Task) : Prop := ∃ e d', t.driver.poll = .ok (.event e, d')

/-- The step for the input goes back to `select!` and leaves an event in `rx`. -/
def Strands [Target] (t : Task) (i : Input) : Prop :=
  let d := t.driver
  match t.place, i with
  | .selecting, .job job => d.state = .idle ∧ Refused d job.cmd ∧
    EventFirst ⟨.idle, decide (job.cmd = .factoryReset)⟩ d.rx.data
  | .idleDrain, .poll => BuriedIdle d.mode d.rx.data
  | .jobDrain _, .poll => d.Sent ∧ BuriedJob d.mode d.rx.data
  | .jobWrite _ _, .written (.error _) => EventFirst d.mode d.rx.data
  | .jobRead _, .read (.ok ⟨[], _⟩) => EventFirst d.mode d.rx.data
  | .jobRead _, .read (.error _) => EventFirst d.mode d.rx.data
  | .jobRead _, .elapsed => EventFirst d.mode d.rx.data
  | _, _ => False

end Task

section Lines

variable [Target] {m : Mode} {rx line rest : List UInt8}

theorem next_of_firstLine (h : FirstLine m rx line rest) {o : Option Output} {m' : Mode}
    (hreact : react m line = .take o m') : driverMachine.next m rx = .ok (o, m', rest) := by
  obtain ⟨skipped, hskip, hcr, rfl⟩ := h
  exact (LineMachine.next_skips hskip _).trans (next_of_take hcr hreact rest)

/-- What a line does that is taken without yielding an event. -/
theorem taken_iff {P : Mode → Prop} :
    (∃ o m', react m line = .take o m' ∧ (∀ e, o ≠ some (.event e)) ∧ P m') ↔
      m.Settles line ∧ P .idle ∨ Malformed line ∧ P m := by
  constructor
  · rintro ⟨o, m', hreact, ho, hP⟩
    rcases react_take_inv hreact with ⟨h, rfl, -⟩ | ⟨h, -, rfl⟩ | ⟨-, ⟨e, he⟩, -⟩
    · exact Or.inl ⟨h, hP⟩
    · exact Or.inr ⟨h, hP⟩
    · exact absurd he (ho e)
  · rintro (⟨hsettles, hP⟩ | ⟨hmal, hP⟩)
    · obtain ⟨o, hreact, ho⟩ := react_of_settles hsettles
      exact ⟨o, .idle, hreact, ho, hP⟩
    · exact ⟨none, m, react_of_malformed hmal, by simp, hP⟩

/-- The lines that settle the command with a response. -/
theorem answers_iff : (∃ r, react m line = .take (some (.response r)) .idle) ↔
    m.Settles line ∧
      (m.awaitingReadyAsOk = true ∧ line = utf8 "+READY" ∨ ∃ kind r, IsReply kind line r) := by
  constructor
  · rintro ⟨r, hreact⟩
    have hsettles : m.Settles line := by
      rcases react_take_inv hreact with ⟨h, -⟩ | ⟨-, ho, -⟩ | ⟨-, ⟨e, ho⟩, -⟩
      · exact h
      · cases ho
      · cases ho
    refine ⟨hsettles, ?_⟩
    have hs := react_spec m line
    rw [hreact] at hs
    generalize ho : some (Output.response r) = o at hs
    generalize hm : Mode.idle = m' at hs
    cases hs with
    | ready hflag hline => exact Or.inl ⟨hflag, hline⟩
    | event | rejected => cases ho
    | reply kind hlen hstate hevent hmatch =>
      refine Or.inr ⟨kind, ?_⟩
      by_contra hmal
      rw [replyOutput_eq_none hmatch hmal] at ho
      cases ho
  · rintro ⟨hready | ⟨hlen, hevent, hreset, hmatch⟩, hform⟩
    · obtain ⟨hflag, rfl⟩ := hready
      exact ⟨.ok, react_ready_of_flag hflag⟩
    · rcases hform with ⟨-, rfl⟩ | ⟨kind, r, hreply⟩
      · exact absurd hevent (by decide)
      · refine ⟨r, ?_⟩
        rw [react_of_matches hlen (by simpa using hreset) (by simp [hevent])
          (Mode.matches_iff.mpr hmatch), replyOutput_of_isReply hreply]

theorem buriedIdle_iff : BuriedIdle m rx ↔ ∃ o m' rx',
    driverMachine.next m rx = .ok (o, m', rx') ∧ (∀ e, o ≠ some (.event e)) ∧
      EventFirst m' rx' := by
  constructor
  · rintro ⟨line, rest, hfirst, hline⟩
    obtain ⟨o, m', hreact, ho, hevent⟩ :=
      (taken_iff (P := fun m' => EventFirst m' rest)).mpr hline
    exact ⟨o, m', rest, next_of_firstLine hfirst hreact, ho, hevent⟩
  · rintro ⟨o, m', rx', hnext, ho, hevent⟩
    obtain ⟨skipped, hskip, ⟨-, rfl, -, hstuck⟩ | ⟨line, hcr, hreact, hrx⟩⟩ :=
      LineMachine.next_inv hnext
    · -- a driver that is stuck yields no event
      obtain ⟨e, m'', rest, hnext'⟩ := eventFirst_iff.mp hevent
      cases hnext'.symm.trans (LineMachine.next_stuck hstuck)
    · exact ⟨line, rx', ⟨skipped, hskip, hcr, hrx⟩,
        (taken_iff (P := fun m' => EventFirst m' rx')).mp ⟨o, m', hreact, ho, hevent⟩⟩

theorem buriedJob_iff : BuriedJob m rx ↔ ∃ r m' rx',
    driverMachine.next m rx = .ok (some (.response r), m', rx') ∧ EventFirst m' rx' := by
  constructor
  · rintro ⟨line, rest, hfirst, hsettles, hform, hevent⟩
    obtain ⟨r, hreact⟩ := answers_iff.mpr ⟨hsettles, hform⟩
    exact ⟨r, .idle, rest, next_of_firstLine hfirst hreact, hevent⟩
  · rintro ⟨r, m', rx', hnext, hevent⟩
    obtain ⟨skipped, hskip, ⟨ho, -⟩ | ⟨line, hcr, hreact, hrx⟩⟩ := LineMachine.next_inv hnext
    · cases ho
    obtain ⟨rfl, -⟩ := inFlight_of_react hreact (Or.inr ⟨r, rfl⟩)
    obtain ⟨hsettles, hform⟩ := answers_iff.mp ⟨r, hreact⟩
    exact ⟨line, rx', ⟨skipped, hskip, hcr, hrx⟩, hsettles, hform, hevent⟩

end Lines

/-! ### The task -/

namespace Task

section Step

variable [Target] {t t' : Task} {i : Input} {eff : Effect}

theorem holdsEvent_iff (hinv : t.Inv) (hplace : t.place = .selecting) :
    t.HoldsEvent ↔ EventFirst t.driver.mode t.driver.rx.data := by
  have hsent : t.driver.Sent := hinv.sent (by simp [hplace])
  exact Driver.poll_event_iff hsent

/-- A job that is given up leaves behind what is in `rx`. -/
theorem strands_of_givesUp {d : Driver} {job : Job} {place : Place} {e : Error}
    (h : GivesUp job place i e) : Strands ⟨d, place⟩ i ↔ EventFirst d.mode d.rx.data := by
  cases h <;> exact Iff.rfl

/-- **What a step that goes back to `select!` leaves behind.** -/
theorem holdsEvent_step_iff (hinv : t.Inv) (hno : t.place = .selecting → ¬ t.HoldsEvent)
    (h : t.step i = .ok (eff, t')) (hplace : t'.place = .selecting) :
    t'.HoldsEvent ↔ t.Strands i := by
  rw [holdsEvent_iff (hinv.step h) hplace]
  cases step_spec h with
  | @refuse d d' job e hsubmit =>
    have hnone := (holdsEvent_iff hinv rfl).not.mp (hno rfl)
    rcases Driver.submit_error_inv hsubmit with ⟨-, hbusy, rfl⟩ | ⟨-, hidle, hfull, rfl⟩
    · apply iff_of_false hnone
      rintro ⟨hidle, -⟩
      exact hbusy hidle
    · -- the refused command has set the flag of a factory reset, or cleared it
      show EventFirst ⟨d.state, _⟩ d.rx.data ↔ _
      rw [hidle]
      exact ⟨fun he => ⟨hidle, hfull, he⟩, fun hs => hs.2.2⟩
  | unread =>
    have hnone := (holdsEvent_iff hinv rfl).not.mp (hno rfl)
    exact iff_of_false hnone (fun hs => hs)
  | accept | finish | unsent | write | event | drained | written => cases hplace
  | push hafter => exact absurd hplace (Place.afterRead_ne hafter)
  | sent hsending => exact absurd hplace (Place.sending_ne hsending)
  | @idlePoll d d' p hpoll =>
    -- one poll without an event, and an event right behind what it has taken
    obtain ⟨o, rfl, hnext⟩ := Driver.poll_next (hinv.sent (by simp)) hpoll
    have ho (e : Event) : o ≠ some (.event e) := by
      rintro rfl
      cases hplace
    refine Iff.trans ?_ buriedIdle_iff.symm
    constructor
    · intro hevent
      exact ⟨o, d'.mode, d'.rx.data, hnext, ho, hevent⟩
    · rintro ⟨o', m', rx', hnext', -, hevent⟩
      cases hnext.symm.trans hnext'
      exact hevent
  | @answer d d' job r hpoll =>
    have hsent : d.Sent := Driver.sent_of_poll_ne hpoll (by simp)
    obtain ⟨o, ho, hnext⟩ := Driver.poll_next hsent hpoll
    have hout : some (Output.response r) = o := pollOf_injective ho
    subst hout
    have hburied : Strands ⟨d, .jobDrain job⟩ .poll ↔ BuriedJob d.mode d.rx.data :=
      and_iff_right hsent
    refine Iff.trans ?_ (hburied.trans buriedJob_iff).symm
    constructor
    · intro hevent
      exact ⟨r, d'.mode, d'.rx.data, hnext, hevent⟩
    · rintro ⟨r', m', rx', hnext', hevent⟩
      cases hnext.symm.trans hnext'
      exact hevent
  | giveUp hgive => exact (strands_of_givesUp hgive).symm

/-- A step that strands an event is possible and goes back to `select!`. -/
theorem step_of_strands (hinv : t.Inv) (h : t.Strands i) :
    ∃ eff t', t.step i = .ok (eff, t') ∧ t'.place = .selecting := by
  obtain ⟨d, place⟩ := t
  cases place with
  | selecting =>
    -- a command that is refused
    cases i with
    | job job =>
      obtain ⟨hidle, hfull, -⟩ := h
      have hstep : takeJob d job = .ok (replied
          { d with awaitingReadyAsOk := decide (job.cmd = .factoryReset) } job
          (.error (.core .txOverflow)) none) := by
        rw [takeJob, Driver.submit_overflow hidle hfull]
        rfl
      exact ⟨_, _, hstep, rfl⟩
    | noJob | read | elapsed | written | sent | closed | poll => cases h
  | idleDrain =>
    -- a poll that returns no event
    cases i with
    | poll =>
      obtain ⟨o, m', rx', hnext, ho, -⟩ := buriedIdle_iff.mp h
      obtain ⟨d', hpoll, -⟩ := Driver.poll_of_next (hinv.sent (by simp)) hnext
      have hstep : pollIdle d = .ok ({ poll := some (pollOf o) }, ⟨d', .selecting⟩) := by
        rw [pollIdle, hpoll]
        rcases o with _ | r | e
        · rfl
        · rfl
        · exact absurd rfl (ho e)
      exact ⟨_, _, hstep, rfl⟩
    | job | noJob | read | elapsed | written | sent | closed => cases h
  | jobDrain job =>
    -- the reply, when all bytes of the command are handed out
    cases i with
    | poll =>
      obtain ⟨hsent, hburied⟩ := h
      obtain ⟨r, m', rx', hnext, -⟩ := buriedJob_iff.mp hburied
      obtain ⟨d', hpoll, -⟩ := Driver.poll_of_next hsent hnext
      have hstep : pollJob d job =
          .ok (replied d' job (.ok r) (some (pollOf (some (.response r))))) := by
        rw [pollJob, hpoll]
        rfl
      exact ⟨_, _, hstep, rfl⟩
    | job | noJob | read | elapsed | written | sent | closed => cases h
  | jobWrite job n =>
    -- a write that fails
    cases i with
    | written r =>
      rcases r with e | ⟨⟩
      · exact ⟨_, _, rfl, rfl⟩
      · cases h
    | job | noJob | read | elapsed | sent | closed | poll => cases h
  | jobRead job =>
    -- an error, the end of the port, or the deadline
    cases i with
    | read r =>
      rcases r with e | ⟨_ | ⟨b, bs⟩, hlen⟩
      · exact ⟨_, _, rfl, rfl⟩
      · exact ⟨_, _, rfl, rfl⟩
      · cases h
    | elapsed => exact ⟨_, _, rfl, rfl⟩
    | job | noJob | written | sent | closed | poll => cases h
  | idleSend | jobSend | ended => cases i <;> cases h

end Step

end Task

/-- In the run of the task with the inputs `is`, nothing is stranded: whenever the task is in its
`select!`, the driver has no event to yield. -/
def StrandsNothing [Target] (is : List Input) : Prop :=
  ∀ pre es t, pre <+: is → TaskRuns pre es t → t.place = .selecting → ¬ t.HoldsEvent

theorem not_holdsEvent_spawned [Target] : ¬ Task.spawned.HoldsEvent := by
  rintro ⟨e, d', hpoll⟩
  cases (Driver.poll_of_no_line (Nat.le_refl _) rfl).symm.trans hpoll

/-- **Events left behind.** The task strands no event exactly when no step of the run goes back to
`select!` with an event right behind the line it has taken, or in front of a job it gives up. -/
theorem tokio_strands_iff [Target] (is : List Input) :
    StrandsNothing is ↔
      ∀ pre i es t, pre ++ [i] <+: is → TaskRuns pre es t → ¬ t.Strands i := by
  constructor
  · intro hnothing pre i es t hpre hr hstrands
    obtain ⟨eff, t', hstep, hplace⟩ := Task.step_of_strands hr.inv hstrands
    have hr' : TaskRuns (pre ++ [i]) (es ++ [eff]) t' := Component.run_concat hr hstep
    have hno : t.place = .selecting → ¬ t.HoldsEvent :=
      hnothing pre es t ((List.prefix_append pre [i]).trans hpre) hr
    exact hnothing _ _ t' hpre hr' hplace
      ((Task.holdsEvent_step_iff hr.inv hno hstep hplace).mpr hstrands)
  · intro hnever pre es t hpre hr
    -- the state before the last step strands nothing either
    refine Component.run_induction
      (P := fun pre _ t => pre <+: is → t.place = .selecting → ¬ t.HoldsEvent)
      (fun _ _ => not_holdsEvent_spawned) ?_ pre es t hr hpre
    intro pre es t i eff t' hr ih hstep hpre hplace hholds
    have hno := ih ((List.prefix_append pre [i]).trans hpre)
    exact hnever pre i es t hpre hr
      ((Task.holdsEvent_step_iff (TaskRuns.inv hr) hno hstep hplace).mp hholds)

section

attribute [local instance] Target.host

/-- A message that arrives in one read with the reply to a ping is left behind. -/
theorem tokio_strands_message : ¬ StrandsNothing [.job ⟨.ping, 0⟩, .poll, .written (.ok ()), .poll,
    .read (.ok ⟨utf8 "+OK\r\n+RCV=1,2,HI,-40,9\r\n", by decide⟩), .poll] := by
  intro hnothing
  let d : Driver := { Driver.new.copyLine (utf8 "+OK") with
    rx := ⟨utf8 "+RCV=1,2,HI,-40,9\r\n", by decide⟩ }
  have hrun : ∃ es, TaskRuns [.job ⟨.ping, 0⟩, .poll, .written (.ok ()), .poll,
      .read (.ok ⟨utf8 "+OK\r\n+RCV=1,2,HI,-40,9\r\n", by decide⟩), .poll] es
      ⟨d, .selecting⟩ := by
    refine ⟨[{}, { poll := some (.needTx (wire .ping)) }, {}, { poll := some .idle }, {},
      { poll := some (.response .ok), reply := some (⟨.ping, 0⟩, .ok .ok) }], ?_⟩
    unfold TaskRuns
    decide +kernel
  have hpoll : d.poll = .ok (.event (.recv 1 (utf8 "HI") (-40) 9),
      { d.copyLine (utf8 "+RCV=1,2,HI,-40,9") with rx := .new }) := by
    decide +kernel
  obtain ⟨es, hr⟩ := hrun
  exact hnothing _ es _ (List.prefix_refl _) hr rfl ⟨_, _, hpoll⟩

end

end Rylr998.Tokio
