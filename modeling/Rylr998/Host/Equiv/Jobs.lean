import Rylr998.Host.Equiv.AtOnce
import Rylr998.Host.Equiv.Handle

/-!
# Jobs and replies

A job goes from the handle through the channel to the task, and a reply to it comes back. Jobs are
neither lost nor done twice, and they are done in order (`jobs_replied_in_order`). `Task.call?` is
the call of the driver that a step of the task makes.
-/

namespace Rylr998

/-- Nothing is pushed. -/
theorem Driver.pushRx_nil {d d' : Driver} {r : Except Error Nat}
    (h : d.pushRx [] = .ok (r, d')) : d' = d := by
  have hfit : d.rx.len + ([] : List UInt8).length ≤ rxBuf := d.rx.length_le
  have hnil : d.rx.append [] hfit = d.rx := HVec.ext (List.append_nil _)
  rw [Driver.pushRx_of_le hfit, hnil] at h
  cases h
  rfl

namespace Tokio

/-! ### The driver of the task, call by call -/

/-- The operation of the driver that a step makes. -/
def Place.op? : Place → Input → Option Op
  | .selecting, .job job => some (.submit job.cmd)
  | .selecting, .read (.ok bytes) => if bytes.val = [] then none else some (.pushRx bytes)
  | .idleDrain, .poll => some .poll
  | .jobDrain _, .poll => some .poll
  | .jobWrite _ n, .written (.ok ()) => some (.ackTx n)
  | .jobRead _, .read (.ok bytes) => if bytes.val = [] then none else some (.pushRx bytes)
  | _, _ => none

/-- The driver is handed what has been read. -/
theorem Place.op?_of_afterRead {place place' : Place} (h : place.afterRead = some place')
    (bytes : Chunk) : place.op? (.read (.ok bytes)) =
      if bytes.val = [] then none else some (.pushRx bytes) := by
  cases place with
  | selecting | jobRead => rfl
  | idleDrain | idleSend | jobDrain | jobWrite | jobSend | ended => cases h

/-- The call of the driver that a step makes. -/
def Task.call? [Target] (t : Task) (i : Input) : Option Call :=
  (t.place.op? i).bind fun op => (t.driver.step op).toOption.map Prod.fst

section

variable [Target]

theorem Task.call?_of_step {t : Task} {i : Input} {op : Op} {c : Call} {d : Driver}
    (hop : t.place.op? i = some op) (h : t.driver.step op = .ok (c, d)) : t.call? i = some c := by
  rw [Task.call?, hop, Option.bind_some, h]
  rfl

/-- The driver makes the call of the step, if there is one. -/
theorem Task.calls_of_step {t t' : Task} {i : Input} {eff : Effect}
    (h : t.step i = .ok (eff, t')) :
    t.driver.Calls (t.call? i).toList t'.driver ∧ eff.poll = (t.call? i).bind Call.poll? := by
  have hcall {op : Op} {c : Call} {d : Driver} (hop : t.place.op? i = some op)
      (hs : t.driver.step op = .ok (c, d)) :
      t.driver.Calls (t.call? i).toList d ∧ c.poll? = (t.call? i).bind Call.poll? := by
    rw [Task.call?_of_step hop hs]
    exact ⟨.cons hs .nil, rfl⟩
  have hnone (hop : t.place.op? i = none) :
      t.driver.Calls (t.call? i).toList t.driver ∧ none = (t.call? i).bind Call.poll? := by
    rw [Task.call?, hop]
    exact ⟨.nil, rfl⟩
  cases Task.step_spec h with
  | refuse hs | accept hs => exact hcall rfl (Driver.step_submit hs)
  | finish hfin => cases hfin <;> exact hnone rfl
  | giveUp hgive => cases hgive <;> exact hnone rfl
  | unread | unsent => exact hnone rfl
  | @sent d place place' e hsending => exact hnone (by cases place <;> rfl)
  | @push d d' place place' bytes r hafter hp =>
    have hplace := Place.op?_of_afterRead hafter bytes
    by_cases hnil : bytes.val = []
    · rw [if_pos hnil] at hplace
      rw [hnil] at hp
      obtain rfl := Driver.pushRx_nil hp
      exact hnone hplace
    · rw [if_neg hnil] at hplace
      exact hcall hplace (Driver.step_pushRx hp)
  | idlePoll hp | write hp | answer hp | event hp | drained hp =>
    exact hcall rfl (Driver.step_poll hp)
  | written hack => exact hcall rfl (Driver.step_ackTx hack)

end

/-! ### The jobs of the task -/

/-- The job that the task works on. -/
def Place.job? : Place → Option Job
  | .jobDrain job | .jobWrite job _ | .jobSend job _ | .jobRead job => some job
  | .selecting | .idleDrain | .idleSend _ | .ended => none

/-- The job that an input brings. -/
def Input.job? : Input → Option Job
  | .job taken => some taken
  | _ => none

theorem Place.job?_of_afterRead {place place' : Place} (h : place.afterRead = some place') :
    place'.job? = place.job? := by
  cases place with
  | selecting | jobRead => cases h; rfl
  | idleDrain | idleSend | jobDrain | jobWrite | jobSend | ended => cases h

theorem Place.job?_of_sending {place place' : Place} {e : Event}
    (h : place.sending = some (e, place')) : place'.job? = place.job? := by
  cases place with
  | idleSend | jobSend => cases h; rfl
  | selecting | idleDrain | jobDrain | jobWrite | jobRead | ended => cases h

theorem Place.job?_afterIdlePoll (p : Poll) : (afterIdlePoll p).job? = none := by
  cases p <;> rfl

/-- A step takes a job, replies to the one it works on, or does neither. -/
theorem Task.step_job [Target] {t t' : Task} {i : Input} {eff : Effect}
    (h : t.step i = .ok (eff, t')) : t.place.job?.toList ++ i.job?.toList =
      (eff.reply.map Prod.fst).toList ++ t'.place.job?.toList := by
  cases Task.step_spec h with
  | finish hfin => cases hfin <;> rfl
  | giveUp hgive => cases hgive <;> rfl
  | push hafter => rw [Place.job?_of_afterRead hafter]; exact List.append_nil _
  | sent hsending => rw [Place.job?_of_sending hsending]; exact List.append_nil _
  | idlePoll => rw [Place.job?_afterIdlePoll]; rfl
  | refuse | accept | unread | unsent | write | answer | event | drained | written => rfl

/-- The job that the handle puts into the channel. -/
def Handle.job? : Handle → Option Job
  | .sending job => some job
  | .ready | .waiting _ | .listening => none

namespace System

/-- The job that goes into the channel in an action. -/
def enqueued? (s : System) : Action → Option Job
  | .enqueue => s.handle.job?
  | _ => none

/-- What the task has waited for in an action, if the action is a step of the task. -/
def input? (s : System) : Action → Option Input
  | .takeJob => s.jobs.recv?.map fun p => .job p.1
  | .takeEvent => some .sent
  | .task i => some i
  | _ => none

/-- The call of the driver in an action. -/
def call? [Target] (s : System) (a : Action) : Option Call := (s.input? a).bind s.task.call?

/-- The reply of the task in an action. -/
def reply? [Target] (s : System) (a : Action) : Option (Job × Except Error OwnedResponse) :=
  (s.input? a).bind fun i => (s.task.step i).toOption.bind fun p => p.1.reply

/-- The jobs without a reply: the one the task works on and those in the channel. -/
def pending (s : System) : List Job := s.task.place.job?.toList ++ s.jobs.queue

/-- An action of the task is a step of it. -/
structure Acts [Target] (s : System) (a : Action) (i : Input) (eff : Effect) (shown : Shown)
    (s' : System) : Prop where
  input : s.input? a = some i
  step : s.task.step i = .ok (eff, s'.task)
  poll : shown.poll = eff.poll
  handle : s'.handle = s.handle
  next : s'.next = s.next
  reply : s'.reply = s.deliver eff.reply
  pending : s.pending = (eff.reply.map Prod.fst).toList ++ s'.pending
  silent : s.enqueued? a = none ∧ a ≠ .answer

section

variable [Target] {s s' : System} {a : Action} {shown : Shown}

theorem Acts.reply?_eq {i : Input} {eff : Effect} (h : s.Acts a i eff shown s') :
    s.reply? a = eff.reply := by
  rw [reply?, h.input, Option.bind_some, h.step]
  rfl

/-- An action is a step of the task, or leaves it alone. -/
theorem StepSpec.acts (h : StepSpec s a shown s') :
    s.input? a = none ∧ s'.task = s.task ∧ shown.poll = none ∨
      ∃ i eff, s.Acts a i eff shown s' := by
  cases h with
  | request | enqueue | listen | receive => exact Or.inl ⟨rfl, rfl, rfl⟩
  | back ha => rcases ha with rfl | rfl | rfl | rfl <;> exact Or.inl ⟨rfl, rfl, rfl⟩
  | @takeJob job jobs eff task hrecv hstep =>
    have hqueue := Channel.recv?_eq_some_iff.mp hrecv
    have hinput : s.input? .takeJob = some (.job job) := by
      rw [input?, hrecv]
      rfl
    refine Or.inr ⟨.job job, eff, hinput, hstep, rfl, rfl, rfl, rfl, ?_, rfl, nofun⟩
    have hjob : s.task.place.job?.toList ++ [job] =
        (eff.reply.map Prod.fst).toList ++ task.place.job?.toList := Task.step_job hstep
    show _ ++ _ = _ ++ (_ ++ _)
    rw [hqueue, List.append_cons, hjob, List.append_assoc]
  | takeEvent hsending hsend =>
    refine Or.inr ⟨.sent, _, rfl, Task.step_sent hsending, rfl, rfl, rfl, rfl, ?_, rfl, nofun⟩
    exact congrArg (·.toList ++ s.jobs.queue) (Place.job?_of_sending hsending).symm
  | @task i eff task hown hstep =>
    refine Or.inr ⟨i, eff, rfl, hstep, rfl, rfl, rfl, rfl, ?_, rfl, nofun⟩
    have hnone : i.job? = none := by
      cases i with
      | job => cases hown
      | noJob | read | elapsed | written | sent | closed | poll => rfl
    have hjob : s.task.place.job?.toList =
        (eff.reply.map Prod.fst).toList ++ task.place.job?.toList := by
      rw [← Task.step_job hstep, hnone]
      exact (List.append_nil _).symm
    show _ ++ _ = _ ++ (_ ++ _)
    rw [hjob, List.append_assoc]

/-- The method returns with the reply to its request. -/
theorem answer_inv (h : s.step .answer = .ok (shown, s')) :
    ∃ number r, s.handle = .waiting number ∧ s.reply = some r ∧ shown.answer = some r := by
  unfold step at h
  cases hhandle : s.handle with
  | waiting number =>
    simp only [hhandle] at h
    cases hreply : s.reply with
    | none => rw [if_pos hreply] at h; cases h
    | some r =>
      rw [if_neg (by simp [hreply]), hreply] at h
      cases h
      exact ⟨number, r, rfl, rfl, rfl⟩
  | ready | sending | listening => simp only [hhandle] at h; cases h

end

end System

/-! ### The history of a run -/

/-- What has happened to the jobs in a run. -/
structure History where
  /-- The jobs that have gone into the channel. -/
  enqueued : List Job
  /-- The replies of the task. -/
  replies : List (Job × Except Error OwnedResponse)
  /-- The requests that have returned with a reply. -/
  returned : List (Job × Except Error OwnedResponse)
  /-- The calls of the driver. -/
  calls : List Call

namespace History

def empty : History := ⟨[], [], [], []⟩

/-- What a method returns with, when it returns with a reply. Its job is the last in the channel. -/
def returned? (n : History) (a : Action) (shown : Shown) :
    Option (Job × Except Error OwnedResponse) :=
  if a = .answer then n.enqueued.getLast?.bind fun job => shown.answer.map fun r => (job, r)
  else none

/-- The history after an action. -/
def note [Target] (s : System) (a : Action) (shown : Shown) (_ : System) (n : History) :
    History where
  enqueued := n.enqueued ++ (s.enqueued? a).toList
  replies := n.replies ++ (s.reply? a).toList
  returned := n.returned ++ (n.returned? a shown).toList
  calls := n.calls ++ (s.call? a).toList

section

variable [Target] {s s' : System} {a : Action} {shown : Shown}

/-- The task does nothing. -/
theorem note_of_idle (n : History) (h : s.input? a = none) :
    (note s a shown s' n).replies = n.replies ∧ (note s a shown s' n).calls = n.calls := by
  have hreply : s.reply? a = none := by rw [System.reply?, h]; rfl
  have hcall : s.call? a = none := by rw [System.call?, h]; rfl
  rw [note, hreply, hcall]
  exact ⟨List.append_nil _, List.append_nil _⟩

/-- The task makes a step. -/
theorem note_of_acts {i : Input} {eff : Effect} (n : History) (h : s.Acts a i eff shown s') :
    (note s a shown s' n).replies = n.replies ++ eff.reply.toList ∧
      (note s a shown s' n).calls = n.calls ++ (s.task.call? i).toList := by
  have hcall : s.call? a = s.task.call? i := by rw [System.call?, h.input]; rfl
  rw [note, h.reply?_eq, hcall]
  exact ⟨rfl, rfl⟩

end

/-- Where the request in progress is. -/
inductive Asking (n : History) (s : System) : Prop
  | free : (∀ number, s.handle ≠ .waiting number) → n.returned.Sublist n.replies → Asking n s
  | waiting {job : Job} : s.handle = .waiting job.reply → n.enqueued.getLast? = some job →
    s.reply = none → n.returned.Sublist n.replies → Asking n s
  /-- The reply is there, and it is the last one. -/
  | replied {job : Job} {r : Except Error OwnedResponse}
    {before : List (Job × Except Error OwnedResponse)} : s.handle = .waiting job.reply →
    n.enqueued.getLast? = some job → s.reply = some r → n.replies = before ++ [(job, r)] →
    n.returned.Sublist before → s.pending = [] → Asking n s

/-- Only the last job has its number. -/
theorem eq_last_of_number {pre post : List Job} {job last : Job}
    (h : (pre ++ job :: post).Pairwise fun j k => j.reply < k.reply)
    (hlast : (pre ++ job :: post).getLast? = some last) (hnumber : job.reply = last.reply) :
    post = [] ∧ job = last := by
  rcases List.eq_nil_or_concat post with rfl | ⟨mid, k, rfl⟩
  · rw [List.getLast?_append, List.getLast?_singleton] at hlast
    exact ⟨rfl, Option.some.inj hlast⟩
  · rw [List.concat_eq_append] at h hlast
    have hk : k = last := by
      rw [List.append_cons, ← List.append_assoc, List.getLast?_append, List.getLast?_singleton]
        at hlast
      exact Option.some.inj hlast
    have hlt := List.rel_of_pairwise_cons (List.pairwise_append.mp h).2.1 List.mem_concat_self
    rw [hk] at hlt
    exact absurd hnumber (Nat.ne_of_lt hlt)

/-- The invariant of the jobs. -/
structure Kept (n : History) (s : System) : Prop where
  /-- The jobs are done in order. -/
  inOrder : n.enqueued = n.replies.map Prod.fst ++ s.pending
  /-- The numbers of the jobs grow. -/
  numbers : (n.enqueued ++ s.handle.job?.toList).Pairwise fun j k => j.reply < k.reply
  fresh : ∀ job ∈ n.enqueued ++ s.handle.job?.toList, job.reply < s.next
  asking : n.Asking s

theorem kept_empty : empty.Kept .fromPort :=
  ⟨rfl, .nil, nofun, .free nofun (List.nil_sublist _)⟩

theorem Asking.sublist {n : History} {s : System} (h : n.Asking s) :
    n.returned.Sublist n.replies := by
  cases h with
  | free _ hsub | waiting _ _ _ hsub => exact hsub
  | replied _ _ _ hreplies hsub =>
    rw [hreplies]
    exact hsub.trans (List.sublist_append_left _ _)

section

variable {n n' : History} {s s' : System} {a : Action} {shown : Shown}

/-- The task replies to a job, and the handle may be waiting for it. -/
theorem Kept.asking_of_reply {job : Job} {r : Except Error OwnedResponse}
    (h : n.Kept s) (hpending : s.pending = job :: s'.pending) (hhandle : s'.handle = s.handle)
    (hreply : s'.reply = s.deliver (some (job, r))) (henqueued : n'.enqueued = n.enqueued)
    (hreplies : n'.replies = n.replies ++ [(job, r)]) (hreturned : n'.returned = n.returned) :
    n'.Asking s' := by
  have hsub : n'.returned.Sublist n'.replies := by
    rw [hreturned, hreplies]
    exact h.asking.sublist.trans (List.sublist_append_left _ _)
  have hinOrder : n.enqueued = n.replies.map Prod.fst ++ job :: s'.pending := by
    rw [h.inOrder, hpending]
  cases h.asking with
  | free hfree => exact .free (by rwa [hhandle]) hsub
  | @waiting last hwaiting hlast hnone hbefore =>
    by_cases hnumber : job.reply = last.reply
    · have hnumbers := (List.pairwise_append.mp h.numbers).1
      rw [hinOrder] at hnumbers
      obtain ⟨hnil, rfl⟩ := eq_last_of_number hnumbers (hinOrder ▸ hlast) hnumber
      refine .replied (hhandle.trans hwaiting) (henqueued ▸ hlast) ?_ hreplies
        (hreturned ▸ hbefore) hnil
      rw [hreply, System.deliver, if_pos hwaiting]
    · refine .waiting (hhandle.trans hwaiting) (henqueued ▸ hlast) ?_ hsub
      rw [hreply, System.deliver, if_neg, hnone]
      rw [hwaiting]
      exact fun heq => hnumber (Handle.waiting.inj heq).symm
  | replied _ _ _ _ _ hnil => cases hpending.symm.trans hnil

/-- A method is called or returns. -/
theorem Kept.of_handle (h : n.Kept s) (henqueued : n'.enqueued = n.enqueued)
    (hreplies : n'.replies = n.replies) (hreturned : n'.returned.Sublist n.replies)
    (hpending : s'.pending = s.pending) (hnext : s'.next = s.next)
    (hhandle : s'.handle = .ready ∨ s'.handle = .listening) : n'.Kept s' := by
  have hjob : s'.handle.job? = none ∧ ∀ number, s'.handle ≠ .waiting number := by
    rcases hhandle with hs | hs <;> rw [hs] <;> exact ⟨rfl, nofun⟩
  refine ⟨?_, ?_, ?_, .free hjob.2 (hreplies ▸ hreturned)⟩
  · rw [henqueued, hreplies, hpending]
    exact h.inOrder
  · rw [henqueued, hjob.1, Option.toList_none, List.append_nil]
    exact (List.pairwise_append.mp h.numbers).1
  · rw [henqueued, hjob.1, Option.toList_none, List.append_nil, hnext]
    exact fun job hmem => h.fresh job (List.mem_append_left _ hmem)

/-- What a method returns with is the reply to its request. -/
theorem Kept.returned_of_answer (h : n.Kept s) [Target] (hs : s.step a = .ok (shown, s')) :
    (n.returned ++ (n.returned? a shown).toList).Sublist n.replies := by
  by_cases ha : a = .answer
  · subst ha
    obtain ⟨number, r, hwaiting, hreply, hanswer⟩ := System.answer_inv hs
    cases h.asking with
    | free hfree => exact absurd hwaiting (hfree number)
    | waiting _ _ hnone => cases hnone.symm.trans hreply
    | @replied job r' before _ hlast hsome hreplies hsub =>
      obtain rfl := Option.some.inj (hsome.symm.trans hreply)
      rw [returned?, if_pos rfl, hlast, hanswer, hreplies]
      exact hsub.append (List.Sublist.refl _)
  · rw [returned?, if_neg ha, Option.toList_none, List.append_nil]
    exact h.asking.sublist

/-- An action of the task. -/
theorem Kept.act [Target] {i : Input} {eff : Effect} (h : n.Kept s)
    (hact : s.Acts a i eff shown s') : (note s a shown s' n).Kept s' := by
  have henqueued : (note s a shown s' n).enqueued = n.enqueued := by
    show _ ++ (s.enqueued? a).toList = _
    rw [hact.silent.1]
    exact List.append_nil _
  have hreplies := (note_of_acts n hact).1
  have hreturned : (note s a shown s' n).returned = n.returned := by
    show _ ++ (n.returned? a shown).toList = _
    rw [returned?, if_neg hact.silent.2]
    exact List.append_nil _
  refine ⟨?_, ?_, ?_, ?_⟩
  · rw [henqueued, hreplies, List.map_append, List.append_assoc, h.inOrder, hact.pending]
    cases eff.reply <;> rfl
  · rw [henqueued, hact.handle]
    exact h.numbers
  · rw [henqueued, hact.handle, hact.next]
    exact h.fresh
  · cases hreply : eff.reply with
    | some p =>
      refine h.asking_of_reply ?_ hact.handle (hreply ▸ hact.reply) henqueued ?_ hreturned
      · rw [hact.pending, hreply]
        rfl
      · rw [hreplies, hreply]
        rfl
    | none =>
      have hsame : s'.reply = s.reply := by
        rw [hact.reply, hreply]
        rfl
      rw [hreply] at hreplies
      have hreplies : (note s a shown s' n).replies = n.replies :=
        hreplies.trans (List.append_nil _)
      cases h.asking with
      | free hfree hsub =>
        exact .free (by rwa [hact.handle]) (by rwa [hreturned, hreplies])
      | waiting hwaiting hlast hnone hsub =>
        exact .waiting (hact.handle.trans hwaiting) (by rwa [henqueued]) (hsame.trans hnone)
          (by rwa [hreturned, hreplies])
      | replied hwaiting hlast hsome hlastReply hsub hnil =>
        refine .replied (hact.handle.trans hwaiting) (by rwa [henqueued]) (hsame.trans hsome)
          (hreplies.trans hlastReply) (by rwa [hreturned]) ?_
        rw [← hnil, hact.pending, hreply]
        rfl

/-- Every action keeps the invariant. -/
theorem Kept.step [Target] (h : n.Kept s) (hs : s.step a = .ok (shown, s')) :
    (note s a shown s' n).Kept s' := by
  have hspec := System.step_spec hs
  rcases hspec.acts with ⟨hinput, -, -⟩ | ⟨i, eff, hact⟩
  case inr => exact h.act hact
  have hreplies : (note s a shown s' n).replies = n.replies := (note_of_idle n hinput).1
  have hreturned : (note s a shown s' n).returned.Sublist n.replies := h.returned_of_answer hs
  cases hspec with
  | request cmd hready =>
    -- the job is with the handle, not in the queue, and its number is new
    have henqueued : (note s (.request cmd) {} { s with
        handle := .sending ⟨cmd, s.next⟩, next := s.next + 1 } n).enqueued = n.enqueued :=
      List.append_nil _
    have hfresh : ∀ job ∈ n.enqueued, job.reply < s.next := fun job hmem =>
      h.fresh job (List.mem_append_left _ hmem)
    refine ⟨?_, ?_, ?_, .free nofun (hreplies ▸ hreturned)⟩
    · rw [henqueued, hreplies]
      exact h.inOrder
    · rw [henqueued]
      exact List.pairwise_append.mpr ⟨(List.pairwise_append.mp h.numbers).1,
        List.pairwise_singleton _ _, fun j hj k hk => List.mem_singleton.mp hk ▸ hfresh j hj⟩
    · rw [henqueued]
      exact List.forall_mem_append.mpr ⟨fun job hmem => Nat.lt_succ_of_lt (hfresh job hmem),
        List.forall_mem_singleton.mpr (Nat.lt_succ_self _)⟩
  | @enqueue job jobs hsending hsend hlive =>
    -- the job goes from the handle to the end of the queue
    have henqueued : (note s .enqueue {} { s with
        handle := .waiting job.reply, jobs, reply := none } n).enqueued = n.enqueued ++ [job] := by
      show _ ++ s.handle.job?.toList = _
      rw [hsending]
      rfl
    have hasked : n.enqueued ++ s.handle.job?.toList = n.enqueued ++ [job] := by
      rw [hsending]
      rfl
    refine ⟨?_, ?_, ?_, ?_⟩
    · rw [henqueued, hreplies, h.inOrder, System.pending, System.pending,
        (Channel.send?_eq_some_iff.mp hsend).2, List.append_assoc, List.append_assoc]
    · rw [henqueued, ← hasked]
      exact (List.append_nil _).symm ▸ h.numbers
    · rw [henqueued, ← hasked]
      exact (List.append_nil _).symm ▸ h.fresh
    · exact .waiting rfl (by rw [henqueued, List.getLast?_concat]) rfl (hreplies ▸ hreturned)
  | listen => exact h.of_handle (List.append_nil _) hreplies hreturned rfl rfl (Or.inr rfl)
  | receive => exact h.of_handle (List.append_nil _) hreplies hreturned rfl rfl (Or.inl rfl)
  | back ha =>
    refine h.of_handle ?_ hreplies hreturned rfl rfl (Or.inl rfl)
    rcases ha with rfl | rfl | rfl | rfl <;> exact List.append_nil _
  | takeJob hrecv =>
    rw [System.input?, hrecv] at hinput
    cases hinput
  | takeEvent | task => cases hinput

end

end History

/-- The actions `as` lead from a fresh radio to `s`, show `shown`, and have the history `n`. -/
def HistoryRuns [Target] (as : List Action) (shown : List Shown) (s : System) (n : History) :
    Prop :=
  Component.run (Component.noted System.step History.note) (.fromPort, .empty) as =
    .ok (shown, s, n)

theorem HistoryRuns.kept [Target] {as : List Action} {shown : List Shown} {s : System}
    {n : History} (h : HistoryRuns as shown s n) : n.Kept s :=
  Component.run_noted_induction (P := fun _ _ s n => n.Kept s) History.kept_empty
    (fun _ _ _ _ _ _ _ _ hkept hstep => hkept.step hstep) as shown s n h

/-- The calls in the history are those of the driver, and its polls are those shown. -/
theorem HistoryRuns.calls [Target] {as : List Action} {shown : List Shown} {s : System}
    {n : History} (h : HistoryRuns as shown s n) : Driver.new.Calls n.calls s.task.driver ∧
      n.calls.filterMap Call.poll? = shown.filterMap Shown.poll := by
  refine Component.run_noted_induction (P := fun _ shown s n =>
    Driver.new.Calls n.calls s.task.driver ∧
      n.calls.filterMap Call.poll? = shown.filterMap Shown.poll) ⟨.nil, rfl⟩ ?_ as shown s n h
  rintro as shown s n a shown₁ s' - ⟨hcalls, hpolls⟩ hstep
  rw [Component.filterMap_concat, ← hpolls]
  rcases (System.step_spec hstep).acts with ⟨hinput, htask, hpoll⟩ | ⟨i, eff, hact⟩
  · rw [(History.note_of_idle n hinput).2, htask, hpoll]
    exact ⟨hcalls, (List.append_nil _).symm⟩
  · obtain ⟨hcall, hpoll⟩ := Task.calls_of_step hact.step
    rw [(History.note_of_acts n hact).2, hact.poll, hpoll, List.filterMap_append]
    refine ⟨hcalls.append hcall, congrArg _ ?_⟩
    cases s.task.call? i with
    | none => rfl
    | some c =>
      rw [Option.toList_some, Component.filterMap_cons, List.filterMap_nil, List.append_nil]
      rfl

/-- **Jobs and replies.** The task replies to the jobs in the order in which they have gone into the
channel, to each of them once, and a request that returns with a reply returns with the one to its
own job. -/
theorem jobs_replied_in_order [Target] {as : List Action} {shown : List Shown} {s : System}
    {n : History} (h : HistoryRuns as shown s n) :
    n.enqueued = n.replies.map Prod.fst ++ s.pending ∧
      (n.enqueued.map Job.reply).Pairwise (· < ·) ∧ n.returned.Sublist n.replies :=
  ⟨h.kept.inOrder, List.pairwise_map.mpr (List.pairwise_append.mp h.kept.numbers).1,
    h.kept.asking.sublist⟩

section

attribute [local instance] Target.host

/-- A ping times out, and its reply comes while the next request is waiting. -/
def lateReply : List Action :=
  [.request .ping, .enqueue, .takeJob, .task .poll, .task (.written (.ok ())), .task .poll, .expire,
    .request .getAddress, .enqueue, .task (.read (.ok atOnce_ping.chunk)), .task .poll, .takeJob,
    .task .poll, .task (.written (.ok ())), .task .poll, .task (.read (.ok atOnce_address.chunk)),
    .task .poll, .answer]

theorem jobs_replied_in_order_late : ∃ shown s n, HistoryRuns lateReply shown s n ∧
    n.replies = [(⟨.ping, 0⟩, .ok .ok), (⟨.getAddress, 1⟩, .ok (.address 7))] ∧
    n.returned = [(⟨.getAddress, 1⟩, .ok (.address 7))] ∧ n.returned.Sublist n.replies := by
  have hrun : (Component.run (Component.noted System.step History.note) (.fromPort, .empty)
      lateReply).map (fun p => (p.2.2.replies, p.2.2.returned)) =
      .ok ([(⟨.ping, 0⟩, .ok .ok), (⟨.getAddress, 1⟩, .ok (.address 7))],
        [(⟨.getAddress, 1⟩, .ok (.address 7))]) := by
    decide +kernel
  obtain ⟨⟨shown, s, n⟩, hr, hn⟩ := Except.map_eq_ok.mp hrun
  obtain ⟨hreplies, hreturned⟩ := Prod.mk.inj hn
  exact ⟨shown, s, n, hr, hreplies, hreturned, (jobs_replied_in_order hr).2.2⟩

end

end Tokio

end Rylr998
