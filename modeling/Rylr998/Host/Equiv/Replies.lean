import Rylr998.Host.Equiv.Agree
import Rylr998.Host.Equiv.Jobs

/-!
# The form of a reply

Whatever comes through the port and whatever has timed out before: a job is replied with a response
only of the form that its command expects (`returned_expected`). So the branches of the methods for
an unexpected response are never taken.
-/

namespace Rylr998

open Framing

/-- What the driver returns, it returns for `cmd`. -/
structure Driver.BelongsTo (d : Driver) (cmd : Command) : Prop where
  serves : d.state ≠ .idle → d.Serves cmd
  mode : d.mode.Serves cmd

section

variable [Target] {d d' : Driver} {cmd : Command}

theorem Driver.belongsTo_of_submit (hinv : d.Inv) (h : d.submit cmd = .ok (.ok (), d')) :
    d'.BelongsTo cmd := by
  cases Driver.step_spec hinv (Driver.step_submit h) with
  | accept => exact ⟨fun _ => ⟨rfl, fun _ => rfl, nofun⟩, nofun, of_decide_eq_true⟩

/-- It works for the command until another one is accepted. -/
theorem Driver.BelongsTo.step {op : Op} {c : Call} (hinv : d.Inv) (h : d.BelongsTo cmd)
    (hs : d.step op = .ok (c, d')) (hop : ∀ cmd', op ≠ .submit cmd') :
    d'.BelongsTo cmd ∧ ∀ r, c = .poll (.response r) → cmd.Expects r := by
  have hserves (ha : c.accepted? = none) (hidle : d.state = .idle → d'.state = .idle)
      (hne : d'.state ≠ .idle) : d'.Serves cmd :=
    Driver.serves_step hinv (h.serves (mt hidle hne)) hs ha hne
  cases Driver.step_spec hinv hs with
  | busy cmd' | refuse cmd' | accept cmd' => exact absurd rfl (hop cmd')
  | push | overflow | needTx | ack =>
    exact ⟨⟨hserves rfl id, h.mode⟩, nofun⟩
  | sent n kind htx hstate hkind =>
    refine ⟨⟨hserves rfl fun hidle => (nomatch hstate.symm.trans hidle), ?_, h.mode.flag⟩, nofun⟩
    intro kind' hkind'
    cases hkind'
    have hpending := (h.serves (by rw [hstate]; nofun)).pending hstate
    exact Option.some.inj (hkind.symm.trans hpending)
  | lines o _ htx hnext =>
    obtain ⟨hmode, hexpects⟩ := expects_of_next h.mode hnext
    refine ⟨⟨hserves rfl fun hidle => ?_, hmode⟩, fun r hr => hexpects r ?_⟩
    · rcases next_mode hnext with hm | hm
      · exact (congrArg Mode.state hm).trans hidle
      · exact congrArg Mode.state hm
    · exact pollOf_injective (Call.poll.inj hr)

end

namespace Tokio

section

variable [Target] {t t' : Task} {i : Input} {eff : Effect}

/-- While the task works on a job, the driver works for its command. -/
def Task.Busy (t : Task) : Prop := ∀ job, t.place.job? = some job → t.driver.BelongsTo job.cmd

theorem Task.Busy.step (hinv : t.Inv) (h : t.Busy) (hs : t.step i = .ok (eff, t')) : t'.Busy := by
  have hcall {d d' : Driver} {place place' : Place} {op : Op} {c : Call}
      (ht : Task.mk d place = t) (hjob : place'.job? = place.job?) (hd : d.step op = .ok (c, d'))
      (hop : ∀ cmd, op ≠ .submit cmd) : (Task.mk d' place').Busy := by
    subst ht
    exact fun job hj => ((h job (hjob ▸ hj)).step hinv.driver hd hop).1
  have hfree {d : Driver} {place : Place} (hjob : place.job? = none) : (Task.mk d place).Busy :=
    fun job hj => (nomatch hjob.symm.trans hj)
  cases Task.step_spec hs with
  | refuse | unread | answer | finish | giveUp => exact hfree rfl
  | idlePoll => exact hfree (Place.job?_afterIdlePoll _)
  | accept hsubmit =>
    intro job hj
    cases hj
    exact Driver.belongsTo_of_submit hinv.driver hsubmit
  | push hafter hp =>
    exact hcall rfl (Place.job?_of_afterRead hafter) (Driver.step_pushRx hp) (by simp)
  | sent hsending => exact fun job hj => h job ((Place.job?_of_sending hsending).symm.trans hj)
  | unsent => exact h
  | write hp | event hp | drained hp => exact hcall rfl rfl (Driver.step_poll hp) (by simp)
  | written hack => exact hcall rfl rfl (Driver.step_ackTx hack) (by simp)

theorem Task.Busy.expects (hinv : t.Inv) (h : t.Busy) (hs : t.step i = .ok (eff, t')) {job : Job}
    {r : Response} (hreply : eff.reply = some (job, .ok r)) : job.cmd.Expects r := by
  cases Task.step_spec hs with
  | answer hp =>
    cases hreply
    exact ((h job rfl).step hinv.driver (Driver.step_poll hp) (by simp)).2 r rfl
  | refuse | accept | finish | giveUp | unread | push | sent | unsent | idlePoll | write | event
  | drained | written => cases hreply

/-- The replies with a response are of the form that the commands of their jobs expect. -/
theorem HistoryRuns.expects {as : List Action} {shown : List Shown} {s : System} {n : History}
    (h : HistoryRuns as shown s n) :
    ∀ job r, (job, Except.ok r) ∈ n.replies → job.cmd.Expects r := by
  have hall : s.task.Inv ∧ s.task.Busy ∧
      ∀ job r, (job, Except.ok r) ∈ n.replies → job.cmd.Expects r := by
    refine Component.run_noted_induction (P := fun _ _ s n => s.task.Inv ∧ s.task.Busy ∧
      ∀ job r, (job, Except.ok r) ∈ n.replies → job.cmd.Expects r) ?_ ?_ as shown s n h
    · exact ⟨Task.inv_spawned, fun _ hj => (nomatch hj), fun _ _ hmem => (nomatch hmem)⟩
    · rintro as shown s n a shown₁ s' - ⟨hinv, hbusy, hreplies⟩ hstep
      rcases (System.step_spec hstep).acts with ⟨hinput, htask, -⟩ | ⟨i, eff, hact⟩
      · rw [(History.note_of_idle n hinput).1, htask]
        exact ⟨hinv, hbusy, hreplies⟩
      · rw [(History.note_of_acts n hact).1]
        refine ⟨hinv.step hact.step, hbusy.step hinv hact.step, fun job r hmem => ?_⟩
        rcases List.mem_append.mp hmem with hmem | hmem
        · exact hreplies job r hmem
        · exact hbusy.expects hinv hact.step (Option.mem_toList.mp hmem)
  exact hall.2.2

/-! ### The methods of the handle -/

/-- A method of the handle. -/
inductive Method : Type → Type 1 where
  | shared {α : Type} (m : SharedMethod α) : Method α
  | uid : Method String
  | version : Method String

namespace Method

variable {α : Type}

/-- What calling the method does. -/
def run (d : Driver) (port : Port) :
    Method α → Except Halt (Pumped ErrorKind Read Error α)
  | shared m => m.tokio d port
  | uid => Tokio.uid d port
  | version => Tokio.version d port

/-- The command of its job. -/
def command : Method α → OwnedCommand
  | shared m => m.command
  | uid => .getUid
  | version => .getVersion

/-- What it finds in the reply. -/
def value : Method α → OwnedResponse → Option α
  | shared m, r => m.value r
  | uid, .uid s => some s
  | version, .version s => some s
  | _, _ => none

theorem run_eq (m : Method α) (d : Driver) (port : Port) :
    m.run d port = method d port m.command m.value := by
  have hvalue {cmd : OwnedCommand} {value value' : OwnedResponse → Option α}
      (h : ∀ r, value r = value' r) : method d port cmd value = method d port cmd value' := by
    rw [funext h]
  cases m with
  | shared m => cases m <;> exact hvalue fun r => by cases r <;> rfl
  | uid | version => exact hvalue fun r => by cases r <;> rfl

omit [Target] in
/-- The `match` of the method takes every response that its command expects. -/
theorem expect_ne_parse (m : Method α) {r : Response} (h : m.command.Expects r) :
    expect m.value (.ok r) ≠ .error (.core .parse) := by
  have hanswered := h.1
  intro hparse
  cases m with
  | shared m => cases m <;> cases r <;> first | (cases hparse; done) | cases hanswered
  | uid | version => cases r <;> first | (cases hparse; done) | cases hanswered

end Method

/-- **The form of a response.** A response that a method returns with is of the form that its
command expects, so the `match` of the method does not fail with `Error::Core(Parse)`. -/
theorem returned_expected {as : List Action} {shown : List Shown} {s : System} {n : History}
    (h : HistoryRuns as shown s n) {job : Job} {r : Response}
    (hmem : (job, .ok r) ∈ n.returned) :
    job.cmd.Expects r ∧ ∀ {α : Type} (m : Method α), m.command = job.cmd →
      (∀ d port, m.run d port = method d port job.cmd m.value) ∧
        expect m.value (.ok r) ≠ .error (.core .parse) := by
  have hexpects : job.cmd.Expects r := h.expects job r (h.kept.asking.sublist.mem hmem)
  exact ⟨hexpects, fun m hm => ⟨fun d port => hm ▸ m.run_eq d port,
    m.expect_ne_parse (hm ▸ hexpects)⟩⟩

end

section

attribute [local instance] Target.host

theorem returned_expected_address : Command.getAddress.Expects (.address 7) ∧
    ∀ {α : Type} (m : Method α), m.command = .getAddress →
      (∀ d port, m.run d port = method d port .getAddress m.value) ∧
        expect m.value (.ok (.address 7)) ≠ .error (.core .parse) := by
  have hrun : (Component.run (Component.noted System.step History.note) (.fromPort, .empty)
      lateReply).map (fun p => p.2.2.returned) = .ok [(⟨.getAddress, 1⟩, .ok (.address 7))] := by
    decide +kernel
  obtain ⟨⟨shown, s, n⟩, hr, hn⟩ := Except.map_eq_ok.mp hrun
  have hmem : (⟨.getAddress, 1⟩, .ok (.address 7)) ∈ n.returned := by
    rw [show n.returned = _ from hn]
    exact List.mem_cons_self
  exact returned_expected hr hmem

end

end Tokio

end Rylr998
