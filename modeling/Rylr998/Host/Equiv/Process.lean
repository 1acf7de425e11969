import Rylr998.Host.Equiv.Custody
import Rylr998.Host.Equiv.Jobs

/-!
# `process_job`, step by step

`processJob` goes through `process_job` from its start to its end, with the answers of the port at
hand. The steps of the task take it apart wherever it waits. Both do the same (`processJob_iff`):
`processJob` returns exactly when steps with these answers lead to the reply, and then the result,
the events, the driver and what is left of the answers are the same.
-/

namespace Rylr998

/-! ### A turn of the loop -/

section Pump

variable {ω ρ ε α : Type}

/-- The event comes first. -/
def Pumped.cons (e : Event) (p : Pumped ω ρ ε α) : Pumped ω ρ ε α :=
  { p with events := e :: p.events }

variable [Target] (turn : Turn ω ρ ε) (io : ω → ε) (want : Response → Option (Except ε α))

/-- What a call does when there is nothing left to poll. -/
def pumpIdle (d : Driver) (port : Port ω ρ) : Except Halt (Pumped ω ρ ε α) := do
  match ← turn.run d port with
  | (.error e, d, port) => return ⟨.error e, [], d, port⟩
  | (.ok (), d, port) => pump turn io want d port

/-- What a call does when it has been handed out `n` bytes. -/
def pumpWrite (n : Nat) (d : Driver) (port : Port ω ρ) : Except Halt (Pumped ω ρ ε α) :=
  match port.writes with
  | .ok () :: writes => do
    let d ← onDriver (d.ackTx n)
    pump turn io want d { port with writes }
  | .error e :: writes => return ⟨.error (io e), [], d, { port with writes }⟩
  | [] => throw .blocked

/-- What a call does when the loop over `Driver::poll` has ended. -/
def pumpEnd (port : Port ω ρ) (l : Looped ω (Except ε α)) : Except Halt (Pumped ω ρ ε α) :=
  match l.stop with
  | .wanted out => .ok ⟨out, l.events, l.driver, { port with writes := l.writes }⟩
  | .failed e => .ok ⟨.error (io e), l.events, l.driver, { port with writes := l.writes }⟩
  | .idle => (pumpIdle turn io want l.driver { port with writes := l.writes }).map
      fun p => { p with events := l.events ++ p.events }

variable {turn io want} {d d' : Driver} {port : Port ω ρ}

theorem pump_eq :
    pump turn io want d port = pollLoop want d port.writes >>= pumpEnd turn io want port := by
  cases hloop : pollLoop want d port.writes with
  | error halt => exact pump_of_error hloop
  | ok l =>
    obtain ⟨stop, events, d', writes⟩ := l
    show _ = pumpEnd turn io want port _
    unfold pumpEnd pumpIdle
    cases stop with
    | wanted out => exact pump_of_wanted hloop
    | failed e => rw [pump, hloop]
    | idle =>
      dsimp only
      rcases hturn : turn.run d' { port with writes } with halt | ⟨e | ⟨⟩, d'', port'⟩
      · exact pump_of_halt hloop hturn
      · rw [pump_of_giveUp hloop hturn]
        show _ = Except.ok (⟨.error e, events ++ [], d'', port'⟩ : Pumped ω ρ ε α)
        rw [List.append_nil]
      · rw [pump_of_turn hloop hturn]
        rfl

theorem pump_of_event {e : Event} (h : d.poll = .ok (.event e, d')) :
    pump turn io want d port = (pump turn io want d' port).map (Pumped.cons e) := by
  rw [pump_eq, pump_eq, pollLoop_of_event h]
  cases pollLoop want d' port.writes with
  | error halt => rfl
  | ok l =>
    obtain ⟨stop, events, d'', writes⟩ := l
    show pumpEnd turn io want port _ = Except.map _ (pumpEnd turn io want port _)
    unfold pumpEnd Looped.cons
    cases stop with
    | wanted | failed => rfl
    | idle =>
      dsimp only
      cases pumpIdle turn io want d'' { port with writes } <;> rfl

theorem pump_of_response {r : Response} {out : Except ε α} (h : d.poll = .ok (.response r, d'))
    (hout : want r = some out) : pump turn io want d port = .ok ⟨out, [], d', port⟩ := by
  rw [pump_eq, pollLoop_of_response h, hout]
  rfl

theorem pump_of_idle (h : d.poll = .ok (.idle, d')) :
    pump turn io want d port = pumpIdle turn io want d' port := by
  rw [pump_eq, pollLoop_of_idle h]
  show Except.map _ (pumpIdle turn io want d' port) = _
  cases pumpIdle turn io want d' port <;> rfl

theorem pump_of_needTx {bytes : List UInt8} (h : d.poll = .ok (.needTx bytes, d')) :
    pump turn io want d port = pumpWrite turn io want bytes.length d' port := by
  unfold pumpWrite
  rw [pump_eq]
  cases port.writes with
  | nil => rw [pollLoop_of_blocked h]; rfl
  | cons r writes =>
    rcases r with e | ⟨⟩
    · rw [pollLoop_of_unwritten h]
      rfl
    · rw [pollLoop_of_written h]
      dsimp only
      cases d'.ackTx bytes.length with
      | error f => rfl
      | ok d'' =>
        show _ = pump turn io want d'' { port with writes }
        rw [pump_eq]
        rfl

end Pump

namespace Tokio

/-! ### From a place on -/

/-- The answer of `write_all` in the input. -/
def Input.write? : Input → Option (Except ErrorKind Unit)
  | .written r => some r
  | _ => none

/-- The answer of the read in the input. -/
def Input.read? : Input → Option Read
  | .read (.ok bytes) => some (.ok bytes)
  | .read (.error e) => some (.error e)
  | .elapsed => some .elapsed
  | _ => none

/-- The port that gives the answer in the input first. -/
def Input.before (i : Input) (port : Port) : Port :=
  { port with writes := i.write?.toList ++ port.writes, reads := i.read?.toList ++ port.reads }

section

variable [Target]

/-- The loops of `process_job`. -/
def jobLoop (d : Driver) (port : Port) : Except Halt (Pumped ErrorKind Read Error OwnedResponse) :=
  pump turn .io (fun r => some (.ok r)) d port

/-- What is left of `process_job` in a place of it. -/
def Task.rest (t : Task) (port : Port) :
    Except Halt (Pumped ErrorKind Read Error OwnedResponse) :=
  match t.place with
  | .jobDrain _ | .jobSend _ _ => jobLoop t.driver port
  | .jobRead _ => pumpIdle turn .io (fun r => some (.ok r)) t.driver port
  | .jobWrite _ n => pumpWrite turn .io (fun r => some (.ok r)) n t.driver port
  | .selecting | .idleDrain | .idleSend _ | .ended => throw .blocked

variable {t t' : Task} {i : Input} {eff : Effect} {job : Job}

/-- A step that replies ends `process_job`. -/
theorem Task.rest_of_reply {r : Except Error OwnedResponse} (h : t.step i = .ok (eff, t'))
    (hjob : t.place.job? = some job) (hreply : eff.reply = some (job, r)) (port : Port) :
    t.rest (i.before port) = .ok ⟨r, [], t'.driver, port⟩ := by
  cases Task.step_spec h with
  | answer hp => cases hreply; exact pump_of_response hp rfl
  | giveUp hgive => cases hreply; cases hgive <;> rfl
  | refuse => cases hjob
  | accept | finish | unread | push | sent | unsent | idlePoll | write | event | drained
  | written => cases hreply

/-- A step that does not reply leads on. -/
theorem Task.rest_of_step (h : t.step i = .ok (eff, t')) (hjob : t.place.job? = some job)
    (hreply : eff.reply = none) (port : Port) :
    t.rest (i.before port) =
      (t'.rest port).map fun p => { p with events := eff.event?.toList ++ p.events } := by
  have hsame {x : Except Halt (Pumped ErrorKind Read Error OwnedResponse)} :
      x = x.map fun p => { p with events := [] ++ p.events } := by
    cases x <;> rfl
  cases Task.step_spec h with
  | answer | giveUp | refuse => cases hreply
  | accept | unread | idlePoll => cases hjob
  | finish hfin => cases hfin <;> cases hjob
  | unsent => exact hsame
  | @sent d place place' e hsending =>
    cases place with
    | jobSend => cases hsending; exact hsame
    | idleSend => cases hjob
    | selecting | idleDrain | jobDrain | jobWrite | jobRead | ended => cases hsending
  | event hp => exact pump_of_event hp
  | drained hp => exact (pump_of_idle hp).trans hsame
  | write hp => exact (pump_of_needTx hp).trans hsame
  | @written d d' job n hack =>
    show (onDriver (d.ackTx n) >>= fun d => jobLoop d port) = (jobLoop d' port).map _
    rw [hack]
    exact hsame
  | @push d d' place place' bytes r hafter hp =>
    cases place with
    | jobRead =>
      cases hafter
      rcases bytes with ⟨_ | ⟨b, bs⟩, hlen⟩
      · cases h
      · show Except.bind (Except.bind (onDriver _) _) _ = (jobLoop d' port).map _
        rw [hp]
        exact hsame
    | selecting => cases hjob
    | idleDrain | idleSend | jobDrain | jobWrite | jobSend | ended => cases hafter

/-! ### Steps with the answers of a port -/

/-- Steps with the answers of the port lead from `t` to the reply to the job and to `select!`: they
do what `p` says. -/
def Task.Performs (t : Task) (job : Job) (is : List Input) (port : Port)
    (p : Pumped ErrorKind Read Error OwnedResponse) : Prop :=
  ∃ es eff, Component.run Task.step t is = .ok (es ++ [eff], ⟨p.driver, .selecting⟩) ∧
    (∀ e ∈ es, e.reply = none) ∧ eff.reply = some (job, p.result) ∧
    es.filterMap Effect.event? = p.events ∧
    port = { p.port with
      writes := is.filterMap Input.write? ++ p.port.writes
      reads := is.filterMap Input.read? ++ p.port.reads }

theorem Task.Performs.single {r : Except Error OwnedResponse} {d : Driver}
    (h : t.step i = .ok (eff, ⟨d, .selecting⟩)) (hreply : eff.reply = some (job, r))
    (port : Port) : t.Performs job [i] (i.before port) ⟨r, [], d, port⟩ := by
  refine ⟨[], eff, Component.run_singleton h, List.forall_mem_nil _, hreply, rfl, ?_⟩
  rw [Input.before, Component.filterMap_cons, Component.filterMap_cons, List.filterMap_nil,
    List.filterMap_nil, List.append_nil, List.append_nil]

theorem Task.Performs.cons {is : List Input} {port : Port}
    {p : Pumped ErrorKind Read Error OwnedResponse} (h : t.step i = .ok (eff, t'))
    (hreply : eff.reply = none) (h' : t'.Performs job is port p) :
    t.Performs job (i :: is) (i.before port)
      { p with events := eff.event?.toList ++ p.events } := by
  obtain ⟨es, last, hrun, hsilent, hlast, hevents, rfl⟩ := h'
  refine ⟨eff :: es, last, ?_, List.forall_mem_cons.mpr ⟨hreply, hsilent⟩, hlast, ?_, ?_⟩
  · rw [Component.run_cons h, hrun]
    rfl
  · rw [Component.filterMap_cons, hevents]
  · rw [Input.before, Component.filterMap_cons, Component.filterMap_cons, List.append_assoc,
      List.append_assoc]

/-- The first of the steps replies, or the steps behind it do. -/
theorem Task.Performs.cons_inv {is : List Input} {port : Port}
    {p : Pumped ErrorKind Read Error OwnedResponse} (h : t.Performs job (i :: is) port p) :
    (∃ eff, t.step i = .ok (eff, ⟨p.driver, .selecting⟩) ∧ eff.reply = some (job, p.result) ∧
        port = i.before p.port ∧ p.events = []) ∨
      ∃ eff t' port' p', t.step i = .ok (eff, t') ∧ eff.reply = none ∧
        t'.Performs job is port' p' ∧ port = i.before port' ∧
        p = { p' with events := eff.event?.toList ++ p'.events } := by
  obtain ⟨es, last, hrun, hsilent, hlast, hevents, rfl⟩ := h
  obtain ⟨eff, t', es', hstep, hrest, hes⟩ := Component.run_cons_inv hrun
  cases es with
  | nil =>
    obtain ⟨rfl, rfl⟩ := List.cons.inj hes
    have hnil : is = [] := List.length_eq_zero_iff.mp (Component.run_length hrest).symm
    subst hnil
    cases hrest
    refine Or.inl ⟨_, hstep, hlast, ?_, hevents.symm⟩
    rw [Input.before, Component.filterMap_cons, Component.filterMap_cons, List.filterMap_nil,
      List.filterMap_nil, List.append_nil, List.append_nil]
  | cons e es =>
    obtain ⟨rfl, rfl⟩ := List.cons.inj hes
    obtain ⟨hreply, hsilent⟩ := List.forall_mem_cons.mp hsilent
    rw [Component.filterMap_cons] at hevents
    refine Or.inr ⟨_, t', _, { p with events := es.filterMap Effect.event? }, hstep, hreply,
      ⟨es, last, hrest, hsilent, hlast, rfl, rfl⟩, ?_, ?_⟩
    · rw [Input.before, Component.filterMap_cons, Component.filterMap_cons, List.append_assoc,
        List.append_assoc]
    · rw [hevents]

/-- What the steps do is what is left of `process_job`. -/
theorem Task.Performs.rest_eq {is : List Input} {port : Port}
    {p : Pumped ErrorKind Read Error OwnedResponse} (h : t.Performs job is port p)
    (hjob : t.place.job? = some job) : t.rest port = .ok p := by
  induction is generalizing t port p with
  | nil =>
    obtain ⟨es, last, hrun, -⟩ := h
    have hlength := Component.run_length hrun
    rw [List.length_append] at hlength
    cases hlength
  | cons i is ih =>
    rcases h.cons_inv with ⟨eff, hstep, hreply, rfl, hevents⟩ |
      ⟨eff, t', port', p', hstep, hreply, hrest, rfl, rfl⟩
    · rw [Task.rest_of_reply hstep hjob hreply, ← hevents]
    · have hjob' : t'.place.job? = some job := by
        have hjobs : job :: i.job?.toList = t'.place.job?.toList := by
          have hjobs := Task.step_job hstep
          rwa [hjob, hreply] at hjobs
        cases hplace : t'.place.job? with
        | none => rw [hplace] at hjobs; cases hjobs
        | some job' => rw [hplace] at hjobs; exact congrArg some (List.cons.inj hjobs).1.symm
      rw [Task.rest_of_step hstep hjob hreply, ih hrest hjob']
      rfl

/-- What a turn of the loop of `process_job` comes to when `Driver::poll` returns `p`. -/
def Task.afterPoll (d : Driver) (job : Job) (p : Poll) : Effect × Task :=
  match p with
  | .needTx bytes => ({ poll := some p }, ⟨d, .jobWrite job bytes.length⟩)
  | .response r => replied d job (.ok r) (some p)
  | .event e => ({ poll := some p }, ⟨d, .jobSend job e⟩)
  | .idle => ({ poll := some p }, ⟨d, .jobRead job⟩)

theorem Task.step_drain {d d' : Driver} {p : Poll} (h : d.poll = .ok (p, d')) (job : Job) :
    Task.step ⟨d, .jobDrain job⟩ .poll = .ok (Task.afterPoll d' job p) := by
  show Task.pollJob d job = _
  unfold pollJob
  rw [h]
  cases p <;> rfl

theorem Task.step_written {d d' : Driver} {n : Nat} (h : d.ackTx n = .ok d') (job : Job) :
    Task.step ⟨d, .jobWrite job n⟩ (.written (.ok ())) = .ok ({}, ⟨d', .jobDrain job⟩) := by
  show inTask (d.ackTx n) >>= _ = _
  rw [h]
  rfl

theorem Task.step_unread {d d' : Driver} {b : UInt8} {bytes : List UInt8}
    (hlen : (b :: bytes).length ≤ 256) {r : Except Rylr998.Error Nat}
    (h : d.pushRx (b :: bytes) = .ok (r, d')) (job : Job) :
    Task.step ⟨d, .jobRead job⟩ (.read (.ok ⟨b :: bytes, hlen⟩)) =
      .ok ({}, ⟨d', .jobDrain job⟩) := by
  show Task.push d ⟨b :: bytes, hlen⟩ _ = _
  unfold Task.push
  rw [h]
  rfl

/-- From the read on: the reads give up, or they lead back to the loop. -/
theorem exists_performs_read {d : Driver} {port : Port}
    {p : Pumped ErrorKind Read Error OwnedResponse} {job : Job}
    (h : pumpIdle turn .io (fun r => some (.ok r)) d port = .ok p)
    (hloop : ∀ d' port' p', port'.reads.length < port.reads.length →
      jobLoop d' port' = .ok p' → ∃ is, Task.Performs ⟨d', .jobDrain job⟩ job is port' p') :
    ∃ is, Task.Performs ⟨d, .jobRead job⟩ job is port p := by
  obtain ⟨writes, _ | ⟨read, reads⟩, clock⟩ := port
  · cases h
  rcases read with _ | ⟨_ | ⟨b, bytes⟩, hlen⟩ | e
  · cases h
    exact ⟨[.elapsed], .single rfl rfl ⟨writes, reads, clock⟩⟩
  · cases h
    exact ⟨[.read (.ok ⟨[], hlen⟩)], .single rfl rfl ⟨writes, reads, clock⟩⟩
  · change Except.bind (Except.bind (onDriver (d.pushRx (b :: bytes))) _) _ = _ at h
    cases hpush : d.pushRx (b :: bytes) with
    | error f =>
      rw [hpush] at h
      cases h
    | ok q =>
      obtain ⟨r, d'⟩ := q
      rw [hpush] at h
      obtain ⟨is, his⟩ := hloop d' ⟨writes, reads, clock⟩ p (Nat.lt_succ_self _) h
      exact ⟨.read (.ok ⟨b :: bytes, hlen⟩) :: is, .cons (Task.step_unread hlen hpush job) rfl his⟩
  · cases h
    exact ⟨[.read (.error e)], .single rfl rfl ⟨writes, reads, clock⟩⟩

/-- What is left of `process_job` is what steps with the answers of the port do. -/
theorem exists_performs {d : Driver} {port : Port} {p : Pumped ErrorKind Read Error OwnedResponse}
    (h : jobLoop d port = .ok p) (job : Job) :
    ∃ is, Task.Performs ⟨d, .jobDrain job⟩ job is port p := by
  induction hlen : port.reads.length using Nat.strong_induction_on generalizing d port p with
  | _ n ihReads =>
  obtain ⟨writes, reads, clock⟩ := port
  replace hlen : reads.length = n := hlen
  induction d, writes using pollLoop.induct (fun r => some (Except.ok r : Except Error Response))
    generalizing p with
  | case1 d writes f hd =>
    rw [jobLoop, pump_eq, pollLoop_of_error hd] at h
    cases h
  | case2 d writes d' hd =>
    rw [jobLoop, pump_of_idle hd] at h
    obtain ⟨is, his⟩ := exists_performs_read h fun d' port' p' hlt hp =>
      ihReads _ (hlen ▸ hlt) hp rfl
    exact ⟨_, .cons (Task.step_drain hd job) rfl his⟩
  | case3 d writes e d' hd hlt ih =>
    rw [jobLoop, pump_of_event hd] at h
    obtain ⟨p, hp, rfl⟩ := Except.map_eq_ok.mp h
    obtain ⟨is, his⟩ := ih hp
    exact ⟨_, .cons (Task.step_drain hd job) rfl (.cons (Task.step_sent rfl) rfl his)⟩
  | case4 d writes r d' hd hlt out hout =>
    cases hout
    rw [jobLoop, pump_of_response hd rfl] at h
    cases h
    exact ⟨_, .single (Task.step_drain hd job) rfl _⟩
  | case5 d writes r d' hd hlt hout => cases hout
  | case6 d bytes d' hd =>
    rw [jobLoop, pump_of_needTx hd] at h
    cases h
  | case7 d bytes d' hd e writes =>
    rw [jobLoop, pump_of_needTx hd] at h
    cases h
    have hwrite : Task.Performs ⟨d', .jobWrite job bytes.length⟩ job [.written (.error e)]
        ⟨.error e :: writes, reads, clock⟩ ⟨.error (.io e), [], d', ⟨writes, reads, clock⟩⟩ :=
      .single rfl rfl ⟨writes, reads, clock⟩
    exact ⟨_, .cons (Task.step_drain hd job) rfl hwrite⟩
  | case8 d bytes d' hd writes f hack =>
    rw [jobLoop, pump_of_needTx hd, pumpWrite, hack] at h
    cases h
  | case9 d bytes d' hd writes d'' hack hlt ih =>
    rw [jobLoop, pump_of_needTx hd, pumpWrite, hack] at h
    obtain ⟨is, his⟩ := ih h
    exact ⟨_, .cons (Task.step_drain hd job) rfl (.cons (Task.step_written hack job) rfl his)⟩

/-- **`process_job` is its steps.** `processJob` returns `p` exactly when steps with the answers of
the port, from the job to the reply, do what `p` says. -/
theorem processJob_iff {d : Driver} {port : Port} {job : Job}
    {p : Pumped ErrorKind Read Error OwnedResponse} :
    processJob d port job.cmd = .ok p ↔
      ∃ is, Task.Performs ⟨d, .selecting⟩ job (.job job :: is) port p := by
  have hjob : Task.step ⟨d, .selecting⟩ (.job job) = Task.takeJob d job := rfl
  unfold Task.takeJob at hjob
  unfold processJob
  rcases hsubmit : d.submit job.cmd with f | ⟨e | ⟨⟩, d'⟩ <;> rw [hsubmit] at hjob
  · constructor
    · rintro ⟨⟩
    · rintro ⟨is, es, eff, hrun, -⟩
      obtain ⟨_, _, _, hstep, -⟩ := Component.run_cons_inv hrun
      cases hjob.symm.trans hstep
  · constructor
    · rintro ⟨⟩
      exact ⟨[], .single hjob rfl port⟩
    · rintro ⟨is, his⟩
      rcases his.cons_inv with ⟨eff, hstep, hreply, rfl, hevents⟩ |
        ⟨eff, t', port', p', hstep, hreply, -⟩
      · obtain ⟨result, events, driver, port⟩ := p
        cases hjob.symm.trans hstep
        cases hreply
        cases hevents
        rfl
      · cases hjob.symm.trans hstep
        cases hreply
  · constructor
    · intro h
      obtain ⟨is, his⟩ := exists_performs h job
      exact ⟨is, .cons hjob rfl his⟩
    · rintro ⟨is, his⟩
      rcases his.cons_inv with ⟨eff, hstep, -⟩ |
        ⟨eff, t', port', p', hstep, -, hrest, rfl, rfl⟩
      · cases hjob.symm.trans hstep
      · cases hjob.symm.trans hstep
        exact hrest.rest_eq rfl

end

end Tokio

end Rylr998
