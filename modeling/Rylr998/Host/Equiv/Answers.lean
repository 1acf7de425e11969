import Rylr998.Core.Equiv.Lines
import Rylr998.Host.Equiv.Calls
import Rylr998.System.World

/-!
# The response that a call returns with

The responses that the driver returns to a call are ones that the call has no use for and, last, the
one that it returns with, if there is one (`Ends`). A command method is refused when it submits its
command, returns with a response, or gives up (`CommandSpec`).
-/

namespace Rylr998

/-- The responses among the calls are ones that `want` has no result for and, last, the one with the
result `out`, if there is one. -/
def Ends {α : Type} (want : Response → Option α) (calls : List Call) : Option α → Prop
  | none => ∀ r ∈ calls.filterMap Call.response?, want r = none
  | some out => ∃ rs r, calls.filterMap Call.response? = rs ++ [r] ∧ want r = some out ∧
      ∀ r' ∈ rs, want r' = none

/-- The result that the loop has come to. -/
def LoopEnd.wanted? {ω α : Type} : LoopEnd ω α → Option α
  | .wanted out => some out
  | _ => none

theorem Ends.append {α : Type} {want : Response → Option α} {calls calls' : List Call}
    {out : Option α} (h : Ends want calls none) (h' : Ends want calls' out) :
    Ends want (calls ++ calls') out := by
  cases out with
  | none =>
    show ∀ r ∈ (calls ++ calls').filterMap Call.response?, want r = none
    rw [List.filterMap_append]
    exact List.forall_mem_append.mpr ⟨h, h'⟩
  | some out =>
    obtain ⟨rs, r, hrs, hr, hnone⟩ := h'
    refine ⟨calls.filterMap Call.response? ++ rs, r, ?_, hr, List.forall_mem_append.mpr ⟨h, hnone⟩⟩
    rw [List.filterMap_append, hrs, List.append_assoc]

theorem ends_of_quiet {α : Type} {want : Response → Option α} {calls : List Call}
    (h : ∀ c ∈ calls, c.response? = none) : Ends want calls none := by
  show ∀ r ∈ calls.filterMap Call.response?, want r = none
  rw [List.filterMap_eq_nil_iff.mpr h]
  nofun

theorem Ends.cons {α : Type} {want : Response → Option α} {calls : List Call} {out : Option α}
    {c : Call} (hc : ∀ r, c.response? = some r → want r = none) (h : Ends want calls out) :
    Ends want (c :: calls) out := by
  have hone : Ends want [c] none := by
    intro r hr
    obtain ⟨c', hmem, hr⟩ := List.mem_filterMap.mp hr
    rw [List.mem_singleton.mp hmem] at hr
    exact hc r hr
  exact hone.append h

/-- A call that returns no response. -/
theorem Ends.cons_quiet {α : Type} {want : Response → Option α} {calls : List Call} {out : Option α}
    {c : Call} (hc : c.response? = none) (h : Ends want calls out) :
    Ends want (c :: calls) out := by
  refine h.cons fun r hr => ?_
  rw [hc] at hr
  cases hr

/-! ### The responses that `poll` returns -/

section

variable [Target] {d d' : Driver}

theorem Driver.isReply_of_poll {r : Response} (h : d.poll = .ok (.response r, d')) :
    ∃ kind line, IsReply kind line r := by
  rcases poll_inv h with ⟨-, hneed, -⟩ | ⟨-, o, hpoll, hnext, -⟩
  · cases hneed
  · obtain rfl : some (.response r) = o := pollOf_injective hpoll
    obtain ⟨-, -, ⟨hnone, -⟩ | ⟨line, -, hreact, -⟩⟩ := Framing.LineMachine.next_inv hnext
    · cases hnone
    · rcases response_of_react hreact with ⟨-, rfl⟩ | ⟨kind, -, hreply⟩
      · exact ⟨.ack, _, .ok⟩
      · exact ⟨kind, line, hreply⟩

/-- Whatever is pushed, a response that is returned is one that a reply stands for. -/
theorem Driver.Calls.isReply {calls : List Call} {r : Response} (h : d.Calls calls d')
    (hr : r ∈ calls.filterMap Call.response?) : ∃ kind line, IsReply kind line r := by
  obtain ⟨ops, h⟩ := h
  induction ops generalizing d calls with
  | nil =>
    cases h
    cases hr
  | cons op ops ih =>
    obtain ⟨c, d₁, calls, hstep, hrun, rfl⟩ := Component.run_cons_inv h
    rw [Component.filterMap_cons, List.mem_append] at hr
    rcases hr with hr | hr
    · obtain rfl : c = .poll (.response r) := by
        cases c with
        | poll p =>
          cases p with
          | response r' =>
            obtain rfl := List.mem_singleton.mp hr
            rfl
          | needTx | event | idle => cases hr
        | submit | pushRx | ackTx => cases hr
      obtain rfl : Op.poll = op := Driver.op_of_step hstep
      obtain ⟨p, hp, hpoll⟩ := Driver.step_poll_iff.mp hstep
      cases hp
      exact Driver.isReply_of_poll hpoll
    · exact ih hr hrun

end

/-! ### The loops -/

section Loop

variable [Target] {ω ρ ε α : Type}

theorem pollLoop_ends {want : Response → Option α} {d : Driver} {writes : List (Except ω Unit)}
    {l : Looped ω α} (h : pollLoop want d writes = .ok l) :
    accepted (pollCalls want d writes) = [] ∧
      Ends want (pollCalls want d writes) l.stop.wanted? := by
  induction d, writes using pollLoop.induct want generalizing l with
  | case1 d writes f hpoll =>
    rw [pollLoop_of_error hpoll] at h
    cases h
  | case2 d writes d' hpoll =>
    rw [pollLoop_of_idle hpoll] at h
    cases h
    rw [pollCalls_of_idle hpoll]
    exact ⟨rfl, ends_of_quiet (by simp [Call.response?])⟩
  | case3 d writes e d' hpoll hlt ih =>
    rw [pollLoop_of_event hpoll] at h
    obtain ⟨l, hloop, rfl⟩ := Except.map_eq_ok.mp h
    obtain ⟨hacc, hends⟩ := ih hloop
    rw [pollCalls_of_event hpoll]
    exact ⟨hacc, hends.cons_quiet rfl⟩
  | case4 d writes r d' hpoll hlt out hout =>
    rw [pollLoop_of_response hpoll, hout] at h
    cases h
    rw [pollCalls_of_response hpoll, hout]
    exact ⟨rfl, [], r, rfl, hout, List.forall_mem_nil _⟩
  | case5 d writes r d' hpoll hlt hout ih =>
    rw [pollLoop_of_response hpoll, hout] at h
    obtain ⟨hacc, hends⟩ := ih h
    rw [pollCalls_of_response hpoll, hout]
    exact ⟨hacc, hends.cons fun r' hr => Option.some.inj hr ▸ hout⟩
  | case6 d bytes d' hpoll =>
    rw [pollLoop_of_blocked hpoll] at h
    cases h
  | case7 d bytes d' hpoll e writes =>
    rw [pollLoop_of_unwritten hpoll] at h
    cases h
    rw [pollCalls_of_unwritten hpoll]
    exact ⟨rfl, ends_of_quiet (by simp [Call.response?])⟩
  | case8 d bytes d' hpoll writes f hack =>
    rw [pollLoop_of_written hpoll, hack] at h
    cases h
  | case9 d bytes d' hpoll writes d'' hack hlt ih =>
    rw [pollLoop_of_written hpoll, hack] at h
    obtain ⟨hacc, hends⟩ := ih h
    rw [pollCalls_of_written hpoll hack]
    exact ⟨hacc, (hends.cons_quiet rfl).cons_quiet rfl⟩

variable {turn : Turn ω ρ ε} {turnCalls : Driver → Port ω ρ → List Call} {io : ω → ε}
  {want : Response → Option (Except ε α)}

/-- The error is one that the loop around `Driver::poll` gives up with. -/
def GivesUp (turn : Turn ω ρ ε) (io : ω → ε) (e : ε) : Prop :=
  (∃ e', e = io e') ∨ ∃ d port d' port', turn.run d port = .ok (.error e, d', port')

/-- The loop returns with a response, or gives up without one. -/
theorem pump_ends (hquiet : ∀ d port, ∀ c ∈ turnCalls d port, ∃ bytes r, c = .pushRx bytes r)
    {d : Driver} {port : Port ω ρ} {p : Pumped ω ρ ε α} (h : pump turn io want d port = .ok p) :
    accepted (pumpCalls turn turnCalls want d port) = [] ∧
      (Ends want (pumpCalls turn turnCalls want d port) (some p.result) ∨
        Ends want (pumpCalls turn turnCalls want d port) none ∧
          ∃ e, p.result = .error e ∧ GivesUp turn io e) := by
  induction hlen : port.reads.length using Nat.strong_induction_on generalizing d port p with
  | _ n ih =>
  subst hlen
  have hturnEnds (d : Driver) (port : Port ω ρ) : Ends want (turnCalls d port) none := by
    refine ends_of_quiet fun c hc => ?_
    obtain ⟨bytes, r, rfl⟩ := hquiet d port c hc
    rfl
  have hturnAcc (d : Driver) (port : Port ω ρ) : accepted (turnCalls d port) = [] := by
    refine List.filterMap_eq_nil_iff.mpr fun c hc => ?_
    obtain ⟨bytes, r, rfl⟩ := hquiet d port c hc
    rfl
  obtain ⟨l, hloop, hcase⟩ := pump_inv h
  obtain ⟨hacc, hends⟩ := pollLoop_ends hloop
  rcases hcase with ⟨out, hstop, rfl⟩ | ⟨e, hstop, rfl⟩ | ⟨hstop, e, d', port', hturn, rfl⟩ |
    ⟨hstop, d', port', p', hturn, hrec, rfl⟩
  · rw [pumpCalls_of_stop hloop (by simp [hstop])]
    rw [hstop] at hends
    exact ⟨hacc, Or.inl hends⟩
  · rw [pumpCalls_of_stop hloop (by simp [hstop])]
    rw [hstop] at hends
    exact ⟨hacc, Or.inr ⟨hends, _, rfl, Or.inl ⟨e, rfl⟩⟩⟩
  · rw [pumpCalls_of_giveUp hloop hstop hturn]
    rw [hstop] at hends
    refine ⟨?_, Or.inr ⟨hends.append (hturnEnds _ _), e, rfl, Or.inr ⟨_, _, _, _, hturn⟩⟩⟩
    rw [accepted_append, hacc, hturnAcc]
    rfl
  · have hlt := turn.reads_lt hturn
    obtain ⟨hacc', hends'⟩ := ih _ hlt hrec rfl
    rw [pumpCalls_of_turn hloop hstop hturn]
    rw [hstop] at hends
    constructor
    · rw [accepted_append, accepted_append, hacc, hturnAcc, hacc']
      rfl
    · rcases hends' with hout | ⟨hnone, e, he, hgives⟩
      · exact Or.inl (hends.append ((hturnEnds _ _).append hout))
      · exact Or.inr ⟨hends.append ((hturnEnds _ _).append hnone), e, he, hgives⟩

end Loop

/-! ### A submitted command -/

section Submit

variable {ε α : Type}

/-- What a command method can do, with the calls of the driver that it makes. `core` is the error of
a refusal, and `radio` is the answer of the radio with an error code. -/
inductive CommandSpec (core : Error → ε) (radio : UInt8 → ε) (d : Driver) (cmd : Command)
    (want : Response → Option (Except ε α)) (calls : List Call) : Except ε α → Prop
  /-- The driver refuses the command. -/
  | refused {e : Error} {d' : Driver} : d.submit cmd = .ok (.error e, d') →
    calls = [.submit cmd (.error e)] → CommandSpec core radio d cmd want calls (.error (core e))
  /-- It returns with a response. -/
  | answered {out : Except ε α} : d.state = .idle → accepted calls = [cmd] →
    Ends want calls (some out) → CommandSpec core radio d cmd want calls out
  /-- It gives up. -/
  | gaveUp {e : ε} : accepted calls = [cmd] → Ends want calls none → (∀ code, e ≠ radio code) →
    CommandSpec core radio d cmd want calls (.error e)

variable {core : Error → ε} {radio : UInt8 → ε} {d : Driver} {cmd : Command}
  {want : Response → Option (Except ε α)}

theorem CommandSpec.ends {calls : List Call} {out : Except ε α}
    (h : CommandSpec core radio d cmd want calls out) (hcore : ∀ e code, core e ≠ radio code) :
    (d.state = .idle ∧ accepted calls = [cmd] ∧ Ends want calls (some out)) ∨
      ∃ e, out = .error e ∧ ∀ code, e ≠ radio code := by
  cases h with
  | refused => exact Or.inr ⟨_, rfl, hcore _⟩
  | answered hidle hacc hends => exact Or.inl ⟨hidle, hacc, hends⟩
  | gaveUp _ _ hcode => exact Or.inr ⟨_, rfl, hcode⟩

variable [Target] {δ ω ρ : Type} {turn : δ → Turn ω ρ ε}
  {turnCalls : δ → Driver → Port ω ρ → List Call} {start : Port ω ρ → Except Halt (δ × Port ω ρ)}
  {io : ω → ε} {port : Port ω ρ}

theorem submitThenPump_spec
    (hquiet : ∀ deadline d port, ∀ c ∈ turnCalls deadline d port, ∃ bytes r, c = .pushRx bytes r)
    (hgives : ∀ deadline e, GivesUp (turn deadline) io e → ∀ code, e ≠ radio code)
    {p : Pumped ω ρ ε α} (h : submitThenPump turn start io core cmd want d port = .ok p) :
    CommandSpec core radio d cmd want (submitCalls turn turnCalls start cmd want d port)
      p.result := by
  rcases submitThenPump_inv h with ⟨e, d', hsubmit, rfl⟩ |
    ⟨d', deadline, port', hsubmit, hstart, hp⟩
  · rw [submitCalls_of_refused hsubmit]
    exact .refused hsubmit rfl
  · rw [submitCalls_of_accepted hsubmit hstart]
    obtain ⟨hacc, hends⟩ := pump_ends (hquiet deadline) hp
    have hacc := congrArg (cmd :: ·) hacc
    rcases hends with hsome | ⟨hnone, e, he, hgaveUp⟩
    · exact .answered (Driver.idle_of_submit hsubmit) hacc (hsome.cons_quiet rfl)
    · rw [he]
      exact .gaveUp hacc (hnone.cons_quiet rfl) (hgives deadline e hgaveUp)

end Submit

/-! ### The blocking radio -/

namespace Std

theorem readCalls_pushes (d : Driver) (port : Port) :
    ∀ c ∈ readCalls d port, ∃ bytes r, c = .pushRx bytes r := by
  intro c hc
  unfold readCalls at hc
  split at hc
  · split at hc
    · exact ⟨_, _, List.mem_singleton.mp hc⟩
    · cases hc
  · cases hc

/-- What the blocking radio gives up with is no answer of the radio. -/
theorem not_radio_of_givesUp {deadline : Nat} {e : Error} (h : GivesUp (turn deadline) .io e)
    (code : UInt8) : e ≠ .radio code := by
  rcases h with ⟨e', rfl⟩ | ⟨d, port, d', port', hturn⟩
  · nofun
  · have hspec := turn_spec hturn
    generalize hr : Except.error e = r at hspec
    cases hspec with
    | delivered _ _ _ _ hout =>
      rw [hout] at hr
      split_ifs at hr
      cases hr
      nofun
    | failed | overflow =>
      cases hr
      nofun

namespace Radio

variable [Target] {α : Type} {radio radio' : Radio} {cmd : Command} {timeout : Nat}
  {want : Response → Option (Except Error α)} {out : Except Error α}

theorem command_spec (h : radio.command cmd timeout want = .ok (out, radio')) :
    CommandSpec .core .radio radio.driver cmd want (radio.commandCalls cmd timeout want) out := by
  obtain ⟨p, hp, rfl, -⟩ := command_inv h
  exact submitThenPump_spec (fun _ => readCalls_pushes) (fun _ _ => not_radio_of_givesUp) hp

/-- A command method returns with a response, or it returns no answer of the radio. -/
theorem command_ends (h : radio.command cmd timeout want = .ok (out, radio')) :
    (radio.driver.state = .idle ∧ accepted (radio.commandCalls cmd timeout want) = [cmd] ∧
        Ends want (radio.commandCalls cmd timeout want) (some out)) ∨
      ∃ e, out = .error e ∧ ∀ code, e ≠ .radio code :=
  (command_spec h).ends nofun

/-- `next_event` submits nothing. -/
theorem nextEvent_accepted {r : Except Error Event}
    (h : radio.nextEvent timeout = .ok (r, radio')) :
    accepted (radio.nextEventCalls timeout) = [] := by
  obtain ⟨driver, port, events⟩ := radio
  unfold nextEvent at h
  cases events with
  | cons e events => rfl
  | nil =>
    obtain ⟨⟨now, clock⟩, hclock, h⟩ := Except.bind_eq_ok.mp h
    obtain ⟨⟨res, radio₁⟩, hpump, -⟩ := Except.bind_eq_ok.mp h
    obtain ⟨p, hp, -, -⟩ := pumpUntil_inv hpump
    have hclock : port.clock = now :: clock := answer_eq_ok.mp hclock
    simp only [nextEventCalls, hclock]
    exact (pump_ends readCalls_pushes hp).1

end Radio

end Std

/-! ### The radio for microcontrollers -/

namespace Embassy

/-- What the radio for microcontrollers gives up with is no answer of the radio. -/
theorem not_radio_of_givesUp {ε : Type} {deadline : Nat} {e : Error ε}
    (h : GivesUp (turn deadline) .io e) (code : UInt8) : e ≠ .radio code := by
  rcases h with ⟨e', rfl⟩ | ⟨d, port, d', port', hturn⟩
  · nofun
  · have hturn : readOnce deadline d port = .ok (.error e, d', port') := hturn
    unfold readOnce at hturn
    obtain ⟨⟨now, clock⟩, -, hturn⟩ := Except.bind_eq_ok.mp hturn
    change (if deadline - now = 0 then _ else answer port.reads >>= _) = _ at hturn
    split_ifs at hturn
    · cases hturn
      nofun
    obtain ⟨⟨read, reads⟩, -, hturn⟩ := Except.bind_eq_ok.mp hturn
    cases read with
    | elapsed => cases hturn
    | error e =>
      cases hturn
      nofun
    | ok bytes =>
      obtain ⟨⟨res, d₁⟩, -, hturn⟩ := Except.bind_eq_ok.mp hturn
      cases res <;> cases hturn
      nofun

/-- A command method returns with a response, or it returns no answer of the radio. -/
theorem Radio.command_ends [Target] {ε α : Type} {radio radio' : Radio ε} {cmd : Command}
    {timeout : Nat} {want : Response → Option (Except (Error ε) α)} {out : Except (Error ε) α}
    (h : radio.command cmd timeout want = .ok (out, radio')) :
    (radio.driver.state = .idle ∧ accepted (radio.commandCalls cmd timeout want) = [cmd] ∧
        Ends want (radio.commandCalls cmd timeout want) (some out)) ∨
      ∃ e, out = .error e ∧ ∀ code, e ≠ .radio code := by
  obtain ⟨p, hp, rfl, -⟩ := command_inv h
  exact (submitThenPump_spec readCalls_pushes (fun _ _ => not_radio_of_givesUp) hp).ends nofun

end Embassy

end Rylr998
