import Rylr998.Host.Equiv.Custody
import Rylr998.Host.Equiv.Jobs
import Rylr998.System.InOrder
import Rylr998.System.Sequential

/-!
# The async radio and the radio

The handle, its task, the two channels, the driver and the radio together. A job may be given up
while the radio still works on its command: the next jobs are refused, its response is taken when it
comes, and its reply is lost. What a method returns in a clean run is nonetheless the radio's answer
to the command of that call (`async_agreement`).
-/

namespace Rylr998

open Labelled Tokio

/-- A prefix of the pairs of two lists. -/
theorem zip_prefix_zip {α β : Type} {as as' : List α} {bs bs' : List β} (h : as <+: as')
    (h' : bs <+: bs') : as.zip bs <+: as'.zip bs' := by
  induction as generalizing as' bs bs' with
  | nil => exact List.nil_prefix
  | cons a as ih =>
    cases bs with
    | nil => exact List.nil_prefix
    | cons b bs =>
      obtain ⟨as', rfl, has⟩ := List.cons_prefix_iff.mp h
      obtain ⟨bs', rfl, hbs⟩ := List.cons_prefix_iff.mp h'
      exact List.cons_prefix_cons.mpr ⟨rfl, ih has hbs⟩

namespace Tokio

/-- The command of a job and the response that it has got. -/
def done? : Job × Except Error OwnedResponse → Option (Command × Response)
  | (job, .ok r) => some (job.cmd, r)
  | (_, .error _) => none

section

variable [Target] {t t' : Task} {i : Input} {eff : Effect}

/-- Only a job gets a command accepted. -/
theorem Task.accepted_call? (h : ∀ cmd, t.place.op? i ≠ some (.submit cmd)) :
    accepted (t.call? i).toList = [] := by
  unfold call?
  cases hop : t.place.op? i with
  | none => rfl
  | some op =>
    rw [Option.bind_some]
    cases hs : t.driver.step op with
    | error f => rfl
    | ok p =>
      show accepted [p.1] = []
      cases op with
      | submit cmd => exact absurd hop (h cmd)
      | pushRx | poll | ackTx =>
        obtain ⟨q, -, rfl⟩ := Except.map_eq_ok.mp hs
        rfl

/-- What a step does with the job of the task, and the calls that it makes. -/
inductive Task.Works (t : Task) (eff : Effect) (t' : Task) : List Call → Prop
  /-- The command of a job is accepted. -/
  | takes {job : Job} : t.place.job? = none → t'.place.job? = some job → eff.reply = none →
    Works t eff t' [.submit job.cmd (.ok ())]
  /-- The response is returned while the task works on the job. -/
  | answers {job : Job} {r : Response} : t.place.job? = some job → t'.place.job? = none →
    eff.reply = some (job, .ok r) → Works t eff t' [.poll (.response r)]
  | refuses {job : Job} {e : Error} {calls : List Call} : accepted calls = [] →
    t.place.job? = none → t'.place.job? = none → eff.reply = some (job, .error e) →
    Works t eff t' calls
  | givesUp {job : Job} {e : Error} {calls : List Call} : accepted calls = [] →
    t.place.job? = some job → t'.place.job? = none → eff.reply = some (job, .error e) →
    Works t eff t' calls
  | other {calls : List Call} : accepted calls = [] → t'.place.job? = t.place.job? →
    eff.reply = none → Works t eff t' calls

theorem Task.works_of_step (h : t.step i = .ok (eff, t')) :
    t.Works eff t' (t.call? i).toList := by
  cases Task.step_spec h with
  | refuse hs =>
    rw [Task.call?_of_step rfl (Driver.step_submit hs)]
    exact .refuses rfl rfl rfl rfl
  | accept hs =>
    rw [Task.call?_of_step rfl (Driver.step_submit hs)]
    exact .takes rfl rfl rfl
  | answer hp =>
    rw [Task.call?_of_step rfl (Driver.step_poll hp)]
    exact .answers rfl rfl rfl
  | finish hfin => cases hfin <;> exact .other (accepted_call? nofun) rfl rfl
  | giveUp hgive => cases hgive <;> exact .givesUp (accepted_call? nofun) rfl rfl rfl
  | unread => exact .other (accepted_call? nofun) rfl rfl
  | idlePoll => exact .other (accepted_call? nofun) (Place.job?_afterIdlePoll _) rfl
  | unsent | write | event | drained | written => exact .other (accepted_call? nofun) rfl rfl
  | @sent d place place' e hsending =>
    exact .other (accepted_call? (by cases place <;> nofun)) (Place.job?_of_sending hsending) rfl
  | @push d d' place place' bytes r hafter hp =>
    refine .other (accepted_call? fun cmd => ?_) (Place.job?_of_afterRead hafter) rfl
    rw [Place.op?_of_afterRead hafter]
    split_ifs <;> nofun

end

/-- The commands accepted for the jobs with the replies, in order, and the responses returned, of
which the ones to these commands are the first. A job that has got an error may have been refused,
or given up after its command was accepted; its response may still be missing. -/
inductive Served : List (Job × Except Error OwnedResponse) → List Command → List Response → Prop
  | nil (rs : List Response) : Served [] [] rs
  | refused {replies : List (Job × Except Error OwnedResponse)} {cmds : List Command}
    {rs : List Response} (job : Job) (e : Error) : Served replies cmds rs →
    Served ((job, .error e) :: replies) cmds rs
  | givenUp {replies : List (Job × Except Error OwnedResponse)} {cmds : List Command}
    {rs : List Response} (job : Job) (e : Error) : Served replies cmds rs.tail →
    Served ((job, .error e) :: replies) (job.cmd :: cmds) rs
  | answered {replies : List (Job × Except Error OwnedResponse)} {cmds : List Command}
    {rs : List Response} (job : Job) (r : Response) : Served replies cmds rs →
    Served ((job, .ok r) :: replies) (job.cmd :: cmds) (r :: rs)

namespace Served

variable {replies replies' : List (Job × Except Error OwnedResponse)} {cmds cmds' : List Command}
  {rs : List Response}

/-- More responses. -/
theorem more (h : Served replies cmds rs) (rs' : List Response) :
    Served replies cmds (rs ++ rs') := by
  induction h generalizing rs' with
  | nil => exact .nil _
  | refused job e _ ih => exact .refused job e (ih rs')
  | answered job r _ ih => exact .answered job r (ih rs')
  | @givenUp _ _ rs job e _ ih =>
    cases rs with
    | nil => exact .givenUp job e (ih rs'.tail)
    | cons r rs => exact .givenUp job e (ih rs')

/-- More replies. -/
theorem append (h : Served replies cmds rs) (h' : Served replies' cmds' (rs.drop cmds.length)) :
    Served (replies ++ replies') (cmds ++ cmds') rs := by
  induction h with
  | nil => exact h'
  | refused job e _ ih => exact .refused job e (ih h')
  | answered job r _ ih => exact .answered job r (ih h')
  | givenUp job e _ ih =>
    rw [List.length_cons, ← List.drop_tail] at h'
    exact .givenUp job e (ih h')

/-- A job that has got a response tells the commands and responses apart. -/
theorem append_inv {job : Job} {r : Response}
    (h : Served (replies ++ (job, .ok r) :: replies') cmds rs) : ∃ cmds₁ rs₁ cmds₂ rs₂,
      Served replies cmds₁ rs₁ ∧ Served replies' cmds₂ rs₂ ∧ cmds₁.length = rs₁.length ∧
        cmds = cmds₁ ++ job.cmd :: cmds₂ ∧ rs = rs₁ ++ r :: rs₂ := by
  induction replies generalizing cmds rs with
  | nil =>
    cases h with
    | @answered _ cmds rs _ _ h => exact ⟨[], [], cmds, rs, .nil [], h, rfl, rfl, rfl⟩
  | cons p replies ih =>
    cases h with
    | refused job' e h =>
      obtain ⟨cmds₁, rs₁, cmds₂, rs₂, h₁, h₂, hlen, rfl, rfl⟩ := ih h
      exact ⟨cmds₁, rs₁, cmds₂, rs₂, .refused job' e h₁, h₂, hlen, rfl, rfl⟩
    | answered job' r' h =>
      obtain ⟨cmds₁, rs₁, cmds₂, rs₂, h₁, h₂, hlen, rfl, rfl⟩ := ih h
      exact ⟨_, _, cmds₂, rs₂, .answered job' r' h₁, h₂, congrArg Nat.succ hlen, rfl, rfl⟩
    | givenUp job' e h =>
      obtain ⟨cmds₁, rs₁, cmds₂, rs₂, h₁, h₂, hlen, rfl, hrs⟩ := ih h
      cases rs with
      | nil => cases rs₁ <;> cases hrs
      | cons r' rs =>
        exact ⟨job'.cmd :: cmds₁, r' :: rs₁, cmds₂, rs₂, .givenUp job' e h₁, h₂,
          congrArg Nat.succ hlen, rfl, congrArg (r' :: ·) hrs⟩

/-- Every command is the one of a job. -/
theorem mem (h : Served replies cmds rs) : ∀ cmd ∈ cmds, ∃ p ∈ replies, p.1.cmd = cmd := by
  have hcons {p : Job × Except Error OwnedResponse}
      {replies : List (Job × Except Error OwnedResponse)} {cmds : List Command}
      (ih : ∀ cmd ∈ cmds, ∃ p ∈ replies, p.1.cmd = cmd) :
      ∀ cmd ∈ cmds, ∃ p' ∈ p :: replies, p'.1.cmd = cmd := by
    intro cmd hcmd
    obtain ⟨p', hmem, rfl⟩ := ih cmd hcmd
    exact ⟨p', List.mem_cons_of_mem p hmem, rfl⟩
  induction h with
  | nil => exact fun cmd hcmd => absurd hcmd List.not_mem_nil
  | refused job e _ ih => exact hcons ih
  | givenUp job e _ ih => exact List.forall_mem_cons.mpr ⟨⟨_, List.mem_cons_self, rfl⟩, hcons ih⟩
  | answered job r _ ih => exact List.forall_mem_cons.mpr ⟨⟨_, List.mem_cons_self, rfl⟩, hcons ih⟩

/-- The responses in the replies are the ones to the commands of the jobs. -/
theorem sublist (h : Served replies cmds rs) :
    (replies.filterMap done?).Sublist (cmds.zip rs) := by
  induction h with
  | nil => exact List.nil_sublist _
  | refused job e _ ih => exact ih
  | answered job r _ ih => exact ih.cons_cons (job.cmd, r)
  | @givenUp _ cmds rs job e _ ih =>
    cases rs with
    | nil =>
      rw [List.tail_nil, List.zip_nil_right] at ih
      exact ih
    | cons r rs => exact ih.cons (job.cmd, r)

end Served

end Tokio

section

variable [Target]

/-- At most one accepted command is without its response. -/
theorem World.Inv.accepted_le {w : World} (h : w.Inv) :
    w.accepted.length ≤ w.responses.length + 1 := by
  obtain ⟨-, ls, -, -, htr⟩ := h
  cases htr with
  | idle _ _ hacc hresp => simp [hacc, hresp]
  | unanswered h => simp [h.accepted, h.responses]
  | answered _ _ _ hans hacc hresp => simp [hacc, hresp, hans]

/-- The commands accepted so far are those of the jobs that have got a reply, and the one of the job
that the task works on. -/
def Agrees (n : History) (s : System) (w : World) : Prop :=
  ∃ cmds, Served n.replies cmds w.responses ∧
    w.accepted = cmds ++ s.task.place.job?.toList.map Job.cmd

variable {n n' : History} {s s' : System} {w w' : World}

theorem Agrees.works {eff : Effect} {calls : List Call} {answers : List (Command × Response)}
    (h : Agrees n s w) (hw : w.Inv) (hw' : w'.Inv) (hsince : w.Since calls answers w')
    (hworks : s.task.Works eff s'.task calls)
    (hreplies : n'.replies = n.replies ++ eff.reply.toList) : Agrees n' s' w' := by
  obtain ⟨cmds, hserved, haccepted⟩ := h
  have hacc := hsince.accepted
  have hserved : Served n.replies cmds w'.responses := hsince.responses ▸ hserved.more _
  rw [haccepted] at hacc
  cases hworks with
  | @takes job hnone hjob hreply =>
    refine ⟨cmds, ?_, ?_⟩
    · rw [hreplies, hreply, Option.toList_none, List.append_nil]
      exact hserved
    · rw [hacc, hnone, hjob, List.append_assoc]
      rfl
  | @answers job r hjob hnone hreply =>
    have hresp : w'.responses = w.responses ++ [r] := hsince.responses
    rw [hjob] at haccepted hacc
    have hacc : w'.accepted = cmds ++ [job.cmd] := hacc.trans (List.append_nil _)
    -- one command is in flight at a time, so the response is the answer to this one
    have hlen : w.responses.length = cmds.length := by
      have hle : w.accepted.length ≤ w.responses.length + 1 := hw.accepted_le
      have hle' : w'.responses.length ≤ w'.accepted.length := hw'.responses_le
      rw [haccepted] at hle
      rw [hacc, hresp] at hle'
      simp only [Option.toList_some, List.map_cons, List.map_nil, List.length_append,
        List.length_singleton] at hle hle'
      omega
    refine ⟨cmds ++ [job.cmd], ?_, ?_⟩
    · rw [hreplies, hreply]
      refine hserved.append ?_
      rw [hresp, List.drop_left' hlen]
      exact .answered job r (.nil [])
    · rw [hacc, hnone]
      exact (List.append_nil _).symm
  | @refuses job e calls hnothing hnone hnone' hreply =>
    refine ⟨cmds, ?_, ?_⟩
    · rw [hreplies, hreply, ← List.append_nil cmds]
      exact hserved.append (.refused job e (.nil _))
    · rw [hacc, hnothing, hnone, hnone', List.append_nil]
  | @givesUp job e calls hnothing hjob hnone hreply =>
    -- its command was accepted all the same, and the response to it may come later
    refine ⟨cmds ++ [job.cmd], ?_, ?_⟩
    · rw [hreplies, hreply]
      exact hserved.append (.givenUp job e (.nil _))
    · rw [hacc, hnothing, hjob, hnone, List.append_nil]
      exact (List.append_nil _).symm
  | other hnothing hjob hreply =>
    refine ⟨cmds, ?_, ?_⟩
    · rw [hreplies, hreply, Option.toList_none, List.append_nil]
      exact hserved
    · rw [hacc, hnothing, hjob, List.append_nil]

theorem Tokio.HistoryRuns.agrees {as : List Action} {shown : List Shown}
    (h : HistoryRuns as shown s n) (hw : Seen World.Moves Label.call? World.init n.calls w) :
    Agrees n s w := by
  refine Component.run_noted_induction (P := fun _ _ s n =>
    ∀ w, Seen World.Moves Label.call? World.init n.calls w → Agrees n s w)
    ?_ ?_ as shown s n h w hw
  · intro w hw
    obtain ⟨ls, hls, hnone⟩ := hw
    have hacc := (World.since_of_path hls).accepted
    rw [hnone] at hacc
    exact ⟨[], .nil _, hacc⟩
  · intro as shown s n a shown₁ s' hr ih hstep w' hw'
    rcases (System.step_spec hstep).acts with ⟨hinput, htask, -⟩ | ⟨i, eff, hact⟩
    · obtain ⟨hreplies, hcalls⟩ : (History.note s a shown₁ s' n).replies = n.replies ∧
          (History.note s a shown₁ s' n).calls = n.calls := History.note_of_idle n hinput
      have hold := ih w' (hcalls ▸ hw')
      rwa [Agrees, htask, hreplies]
    · obtain ⟨hreplies, hcalls⟩ := History.note_of_acts n hact
      rw [hcalls] at hw'
      obtain ⟨w, ⟨ls, hls, hold⟩, ls', hls', hnew⟩ := hw'.append_inv
      have hinv := World.inv_init.of_path hls
      have hsince := World.since_of_path hls'
      rw [hnew] at hsince
      exact (ih w ⟨ls, hls, hold⟩).works hinv (hinv.of_path hls') hsince
        (Task.works_of_step hact.step) hreplies

end

/-- **Requests and answers of the async radio.** In a clean run the methods that have returned with
a response have returned, one after the other, the radio's answers to their own commands, whichever
methods have given up in between. -/
theorem async_agreement [Target] {as : List Action} {shown : List Shown} {s : System} {n : History}
    (h : HistoryRuns as shown s n) {ls : List Label} {w : World}
    (hpath : Path World.Happens World.init ls w) (hclean : ∀ l ∈ ls, l.Clean)
    (hcalls : ls.filterMap Label.call? = n.calls) :
    (n.returned.filterMap done?).Sublist w.answered := by
  have hmoves := World.moves_of_clean hpath hclean
  obtain ⟨ahead, hanswered, -⟩ := (World.inv_init.of_path hmoves).answered_eq
  obtain ⟨cmds, hserved, haccepted⟩ := h.agrees ⟨ls, hmoves, hcalls⟩
  have hzip : cmds.zip w.responses <+: w.accepted.zip w.responses :=
    zip_prefix_zip (haccepted ▸ List.prefix_append _ _) (List.prefix_refl _)
  rw [hanswered]
  exact ((h.kept.asking.sublist.filterMap _).trans hserved.sublist).trans
    (hzip.sublist.trans (List.sublist_append_left _ _))

section

attribute [local instance] Target.host

/-- The answer to a ping that has timed out comes while the next request is waiting. -/
theorem async_agreement_late : ∃ (n : History) (w : World),
    n.returned = [(⟨.getAddress, 1⟩, .ok (.address 7))] ∧
    w.answered = [(.ping, .ok), (.getAddress, .address 7)] ∧
    (n.returned.filterMap done?).Sublist w.answered := by
  obtain ⟨d, hd, hquiet⟩ := Driver.quiet_new.exchanged atOnce_ping
  obtain ⟨w, hpath, hw, rfl⟩ := World.quiet_init.path_of_exchanged atOnce_ping hd hquiet
  obtain ⟨d', hd', hquiet'⟩ := hw.driver.exchanged atOnce_address
  obtain ⟨w', hpath', -, -⟩ := hw.path_of_exchanged atOnce_address hd' hquiet'
  have hanswered : w'.answered = [(.ping, .ok), (.getAddress, .address 7)] := by
    rw [(World.since_of_path hpath').answered, (World.since_of_path hpath).answered]
    rfl
  have hrun : (Component.run (Component.noted System.step History.note) (.fromPort, .empty)
      lateReply).map (fun p => (p.2.2.calls, p.2.2.returned)) =
      .ok ((exchangeMoves .ping (utf8 "+OK") .ok ++ exchangeMoves .getAddress
        (utf8 "+ADDRESS=" ++ utf8 "7") (.address 7)).filterMap Label.call?,
        [(⟨.getAddress, 1⟩, .ok (.address 7))]) := by
    decide +kernel
  obtain ⟨⟨shown, s, n⟩, hr, hn⟩ := Except.map_eq_ok.mp hrun
  obtain ⟨hcalls, hreturned⟩ := Prod.mk.inj hn
  exact ⟨n, w', hreturned, hanswered,
    async_agreement hr ((hpath.append hpath').mono .move) (by decide) hcalls.symm⟩

end

end Rylr998
