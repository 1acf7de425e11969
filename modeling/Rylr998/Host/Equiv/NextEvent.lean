import Rylr998.Host.Equiv.Drain
import Rylr998.Host.Equiv.Late

/-!
# `next_event`

`Radio::next_event` of the blocking radio pumps with a `want` that matches no response and throws
the result of the pump away. So it does not stop at the first event: it goes on reading until the
deadline or an error (`stops_at_event_iff`). And every failure before the first event is reported as
`Error::Timeout` (`reports_failures_iff`).
-/

namespace Rylr998

open Framing

/-! ### An event is among the buffered lines -/

/-- Behind `+RESET` lines of a factory reset and the reply that the driver waits for, `rx` has a
well-formed event that is passed on. -/
inductive Mode.EventAhead [Target] : Mode → List UInt8 → Prop
  | event {m : Mode} {line rest : List UInt8} {e : Event} : cr ∉ line →
    line.length ≤ lineBufLength → IsEvent line e →
    ¬ (m.awaitingReadyAsOk = true ∧ line = utf8 "+READY") → EventAhead m (line ++ cr :: lf :: rest)
  | reset {m : Mode} {line rest : List UInt8} : cr ∉ line → line.length ≤ lineBufLength →
    m.awaitingReadyAsOk = true → startsWith line (utf8 "+RESET") = true → EventAhead m rest →
    EventAhead m (line ++ cr :: lf :: rest)
  | reply {m : Mode} {line rest : List UInt8} : cr ∉ line → m.Replies line →
    EventAhead .idle rest → EventAhead m (line ++ cr :: lf :: rest)

theorem eventAhead_iff [Target] {m : Mode} {rx : List UInt8} : m.EventAhead rx ↔
    driverMachine.Ahead (fun o => o.isSome) (fun o => ∃ e, o = .event e) m rx := by
  constructor
  · intro h
    induction h with
    | event hl hlen he hready =>
      exact .here hl (react_event_iff.mpr ⟨hlen, he, hready, rfl⟩) ⟨_, rfl⟩
    | reset hl hlen hflag hreset _ ih =>
      exact .skip hl (react_of_reset hlen (by simp [hflag, hreset])) ih
    | reply hl h _ ih =>
      obtain ⟨r, m', hr⟩ := Mode.replies_iff.mp h
      obtain ⟨rfl, -⟩ := inFlight_of_react hr (Or.inr ⟨r, rfl⟩)
      exact .take hl hr rfl ih
  · intro h
    induction h with
    | here hl hr ho =>
      obtain ⟨e, rfl⟩ := ho
      obtain ⟨hlen, he, hready, -⟩ := react_event_iff.mp hr
      exact .event hl hlen he hready
    | @skip m line _ hl hr _ ih =>
      have hs := react_spec m line
      rw [show react m line = .skip from hr] at hs
      cases hs with
      | reset hlen hflag hreset => exact .reset hl hlen hflag hreset ih
    | @take m m' line _ o hl hr hq _ ih =>
      rcases o with _ | r | e
      · cases hq
      · obtain ⟨rfl, -⟩ := inFlight_of_react (show react m line = _ from hr) (Or.inr ⟨r, rfl⟩)
        exact .reply hl (Mode.replies_iff.mpr ⟨r, _, hr⟩) ih
      · obtain ⟨hlen, he, hready, -⟩ := react_event_iff.mp hr
        exact .event hl hlen he hready

/-! ### The events of a loop -/

/-- The driver when the loop comes to look at `rx`: what there is to send is written. -/
def Driver.afterWrite {ω : Type} (d : Driver) (writes : List (Except ω Unit)) : Option Driver :=
  if d.tx.len ≤ d.txInFlight then some d
  else match writes with
    | .ok () :: _ => some d.flushed
    | _ => none

/-- The events that the loop over `Driver::poll` comes to, also when it then panics. -/
def loopEvents [Target] {ω α : Type} (want : Response → Option α) (d : Driver)
    (writes : List (Except ω Unit)) : List Event :=
  (pollCalls want d writes).filterMap Call.event?

section Loop

variable [Target] {ω α : Type} {want : Response → Option α} (hwant : ∀ r, want r = none)
  {d : Driver} {writes : List (Except ω Unit)}

theorem pollCalls_of_error {f : Fault} (h : d.poll = .error f) : pollCalls want d writes = [] := by
  rw [pollCalls]
  split <;> simp_all

theorem pollCalls_of_blocked {bytes : List UInt8} {d' : Driver}
    (h : d.poll = .ok (.needTx bytes, d')) :
    pollCalls want d ([] : List (Except ω Unit)) = [.poll (.needTx bytes)] := by
  rw [pollCalls]
  split <;> simp_all

include hwant

theorem loopEvents_of_response {r : Response} {d' : Driver} (h : d.poll = .ok (.response r, d')) :
    loopEvents want d writes = loopEvents want d' writes := by
  rw [loopEvents, pollCalls_of_response h, hwant r]
  rfl

omit hwant in
theorem loopEvents_of_event {e : Event} {d' : Driver} (h : d.poll = .ok (.event e, d')) :
    loopEvents want d writes = e :: loopEvents want d' writes := by
  rw [loopEvents, pollCalls_of_event h]
  rfl

/-- With nothing to send, the loop comes to an event exactly when one is ahead. -/
theorem loopEvents_of_sent (hd : d.Sent) :
    loopEvents want d writes ≠ [] ↔ d.mode.EventAhead d.rx.data := by
  rw [eventAhead_iff, ← LineMachine.reaches_iff]
  constructor
  · intro h
    induction d, writes using pollLoop.induct want with
    | case1 d writes f hpoll => exact absurd (by rw [loopEvents, pollCalls_of_error hpoll]; rfl) h
    | case2 d writes d' hpoll => exact absurd (by rw [loopEvents, pollCalls_of_idle hpoll]; rfl) h
    | case3 d writes e d' hpoll hlt ih =>
      obtain ⟨o, ho, hn⟩ := Driver.poll_next hd hpoll
      obtain rfl : some (Output.event e) = o := pollOf_injective ho
      exact .now hn ⟨e, rfl⟩
    | case4 d writes r d' hpoll hlt out hout => cases (hwant r).symm.trans hout
    | case5 d writes r d' hpoll hlt hout ih =>
      obtain ⟨o, ho, hn⟩ := Driver.poll_next hd hpoll
      obtain rfl : some (Output.response r) = o := pollOf_injective ho
      rw [loopEvents_of_response hwant hpoll] at h
      exact .later hn rfl (ih (Driver.sent_of_poll hpoll) h)
    | case6 d bytes d' hpoll | case7 d bytes d' hpoll | case8 d bytes d' hpoll
    | case9 d bytes d' hpoll =>
      obtain ⟨o, ho, -⟩ := Driver.poll_next hd hpoll
      exact absurd ho.symm (pollOf_ne_needTx o bytes)
  · intro h
    generalize hm : d.mode = m at h
    generalize hb : d.rx.data = buf at h
    induction h generalizing d with
    | now hn ho =>
      subst hm hb
      obtain ⟨e, rfl⟩ := ho
      obtain ⟨d', hp, -⟩ := Driver.poll_of_next hd hn
      rw [loopEvents_of_event hp]
      simp
    | @later _ _ _ _ o hn hq _ ih =>
      subst hm hb
      obtain ⟨d', hp, hm', hb', -⟩ := Driver.poll_of_next hd hn
      rcases o with _ | r | e
      · cases hq
      · rw [loopEvents_of_response hwant hp]
        exact ih (Driver.sent_of_poll hp) hm' hb'
      · rw [loopEvents_of_event hp]
        simp

/-- The loop comes to an event exactly when what there is to send is written and one is ahead. -/
theorem loopEvents_iff : loopEvents want d writes ≠ [] ↔
    ∃ d', d.afterWrite writes = some d' ∧ d'.mode.EventAhead d'.rx.data := by
  rcases Nat.lt_or_ge d.txInFlight d.tx.len with htx | htx
  · have hp := Driver.poll_needTx htx
    have hnot : ¬ d.tx.len ≤ d.txInFlight := Nat.not_le.mpr htx
    rcases writes with _ | ⟨e | ⟨⟩, writes⟩
    · have hnone : loopEvents want d ([] : List (Except ω Unit)) = [] := by
        rw [loopEvents, pollCalls_of_blocked hp]
        rfl
      simp [hnone, Driver.afterWrite, hnot]
    · have hnone : loopEvents want d (.error e :: writes) = [] := by
        rw [loopEvents, pollCalls_of_unwritten hp]
        rfl
      simp [hnone, Driver.afterWrite, hnot]
    · have hflushed : loopEvents want d (.ok () :: writes) = loopEvents want d.flushed writes := by
        rw [loopEvents, pollCalls_of_written hp d.ackTx_handout]
        rfl
      rw [hflushed, loopEvents_of_sent hwant d.flushed_sent.1]
      simp [Driver.afterWrite, hnot]
  · have hsent : d.afterWrite writes = some d := if_pos htx
    rw [loopEvents_of_sent hwant htx, hsent]
    simp

omit hwant in
/-- A loop that returns has come to the events that it returns. -/
theorem loopEvents_of_ok {r : Looped ω α} (h : pollLoop want d writes = .ok r) :
    loopEvents want d writes = r.events :=
  (pollLoop_calls h).2

end Loop

section

variable [Target] {ω ρ ε α : Type} {turn : Turn ω ρ ε} {want : Response → Option (Except ε α)}
  {d d' : Driver} {port port' : Port ω ρ} {events : List Event}

/-- When no loop comes to an event, none has come up. -/
theorem events_of_loopAt (h : LoopAt turn want d port events d' port')
    (hnone : ∀ events d₁ port₁, LoopAt turn want d port events d₁ port₁ →
      loopEvents want d₁ port₁.writes = []) : events = [] := by
  induction h with
  | first => rfl
  | later hloop hturn _ ih =>
    have hfirst := hnone _ _ _ .first
    rw [loopEvents_of_ok hloop] at hfirst
    obtain rfl := hfirst
    exact ih fun events d₁ port₁ hat => hnone _ _ _ (.later hloop hturn hat)

end

/-! ### The blocking radio -/

namespace Std

/-- The `want` of `next_event`. -/
abbrev matchesNone : Response → Option (Except Error Unit) := fun _ => none

namespace Radio

variable [Target] (radio : Radio) (timeout : Nat)

/-- `next_event` finds no event in the queue and comes to a loop over `Driver::poll`; the `events`
have been queued before. -/
def LoopsAt (events : List Event) (d : Driver) (port : Port) : Prop :=
  radio.events = [] ∧ ∃ start clock, radio.port.clock = start :: clock ∧
    LoopAt (turn (start + timeout)) matchesNone radio.driver { radio.port with clock } events d port

/-- `next_event` comes to a read; the `events` have been queued before. -/
def ReadsAt (events : List Event) (d : Driver) (port : Port) : Prop :=
  radio.events = [] ∧ ∃ start clock, radio.port.clock = start :: clock ∧
    TurnAt (turn (start + timeout)) matchesNone radio.driver { radio.port with clock } events d port

/-- The queue at the call, or as a loop in `next_event` leaves it, and the reads that are left to
the port by then. -/
def Queues (queue : List Event) (reads : List (Except ErrorKind Chunk)) : Prop :=
  queue = radio.events ∧ reads = radio.port.reads ∨
    ∃ events d port, radio.LoopsAt timeout events d port ∧
      queue = events ++ loopEvents matchesNone d port.writes ∧ reads = port.reads

/-- `next_event` returns as soon as an event is queued. -/
structure StopsAtEvent : Prop where
  /-- It reads only while the queue is empty and the deadline has not passed. -/
  reads : ∀ events d port, radio.ReadsAt timeout events d port → events = [] ∧
    ∃ start seen, radio.port.clock = start :: seen ++ port.clock ∧
      ∀ now ∈ seen, now < start + timeout
  /-- It returns the oldest event of the queue, and reads no more. -/
  returns : ∀ e events reads, radio.Queues timeout (e :: events) reads →
    ∃ radio', radio.nextEvent timeout = .ok (.ok e, radio') ∧ radio'.port.reads = reads

/-- An event is ahead when a loop comes to look at `rx`. -/
def FindsEvent : Prop :=
  ∃ events d port d', radio.LoopsAt timeout events d port ∧ d.afterWrite port.writes = some d' ∧
    d'.mode.EventAhead d'.rx.data

/-- The pump ends with a failure; the `events` have been queued before. -/
inductive FailsWith (events : List Event) : Error → Prop
  | write {d : Driver} {port : Port} {e : ErrorKind} {writes : List (Except ErrorKind Unit)} :
    radio.LoopsAt timeout events d port → d.txInFlight < d.tx.len →
      port.writes = .error e :: writes → FailsWith events (.io e)
  | read {d : Driver} {port : Port} {code : Nat} {reads : List (Except ErrorKind Chunk)} :
    radio.ReadsAt timeout events d port → port.reads = .error (.other code) :: reads →
      FailsWith events (.io (.other code))
  | overflow {d : Driver} {port : Port} {bytes : Chunk} {reads : List (Except ErrorKind Chunk)} :
    radio.ReadsAt timeout events d port → port.reads = .ok bytes :: reads →
      rxBuf < d.rx.len + bytes.val.length → FailsWith events (.core .rxOverflow)

/-- Behind a read the clock shows that the deadline has passed; `clock` is left of it. -/
def TimesOut (events : List Event) (clock : List Nat) : Prop :=
  ∃ d port start seen now, radio.ReadsAt timeout events d port ∧
    radio.port.clock = start :: seen ++ clock ∧ now ∈ seen ∧ start + timeout ≤ now

/-- `next_event` tells a failure from the end of the time. -/
structure ReportsFailures : Prop where
  /-- `Error::Timeout` is returned only when the deadline has passed and no event is queued. -/
  timeout_only : ∀ radio', radio.nextEvent timeout = .ok (.error .timeout, radio') →
    radio'.events = [] ∧ radio.TimesOut timeout [] radio'.port.clock
  /-- A failure that ends the pump before an event is queued is returned. -/
  failure : ∀ e, radio.FailsWith timeout [] e → e ≠ .io .wouldBlock → e ≠ .io .timedOut →
    ∃ radio', radio.nextEvent timeout = .ok (.error e, radio')

variable {radio timeout} {radio' : Radio}

theorem nextEvent_of_pump {start : Nat} {clock : List Nat}
    {p : Pumped ErrorKind (Except ErrorKind Chunk) Error Unit} (hempty : radio.events = [])
    (hclock : radio.port.clock = start :: clock)
    (h : pump (turn (start + timeout)) .io matchesNone radio.driver { radio.port with clock } =
      .ok p) (hevents : p.events = []) :
    radio.nextEvent timeout = .ok (.error .timeout, ⟨p.driver, p.port, []⟩) := by
  obtain ⟨driver, port, events⟩ := radio
  obtain rfl : events = [] := hempty
  obtain ⟨result, events, d, port'⟩ := p
  obtain rfl : events = [] := hevents
  unfold nextEvent
  show (answer port.clock >>= _) = _
  rw [answer_eq_ok.mpr hclock]
  show (pumpUntil _ _ _ >>= _) = _
  have hpump : pumpUntil ⟨driver, { port with clock }, []⟩ (start + timeout) matchesNone =
      .ok (result, ⟨d, port', []⟩) := by
    unfold pumpUntil
    rw [h]
    rfl
  rw [hpump]
  rfl

theorem nextEvent_inv {r : Except Error Event} (hempty : radio.events = [])
    (h : radio.nextEvent timeout = .ok (r, radio')) :
    ∃ start clock p, radio.port.clock = start :: clock ∧
      pump (turn (start + timeout)) .io matchesNone radio.driver { radio.port with clock } =
        .ok p ∧ radio'.driver = p.driver ∧ radio'.port = p.port ∧
      ((∃ e, r = .ok e ∧ p.events = e :: radio'.events) ∨
        r = .error .timeout ∧ p.events = [] ∧ radio'.events = []) := by
  obtain ⟨driver, port, events⟩ := radio
  obtain rfl : events = [] := hempty
  unfold nextEvent at h
  obtain ⟨⟨start, clock⟩, hclock, h⟩ := Except.bind_eq_ok.mp h
  obtain ⟨⟨res, radio₁⟩, hpump, h⟩ := Except.bind_eq_ok.mp h
  obtain ⟨p, hp, -, rfl⟩ := pumpUntil_inv hpump
  refine ⟨start, clock, p, answer_eq_ok.mp hclock, hp, ?_⟩
  obtain ⟨result, queue, d, port'⟩ := p
  cases queue with
  | nil =>
    cases h
    exact ⟨rfl, rfl, Or.inr ⟨rfl, rfl, rfl⟩⟩
  | cons e queue =>
    cases h
    exact ⟨rfl, rfl, Or.inl ⟨e, rfl, rfl⟩⟩

/-- `next_event` fails with no other error than `Error::Timeout`. -/
theorem nextEvent_error {e : Error} (h : radio.nextEvent timeout = .ok (.error e, radio')) :
    e = .timeout := by
  cases hqueue : radio.events with
  | nil =>
    obtain ⟨_, _, p, -, -, -, -, ⟨e', he, -⟩ | ⟨he, -⟩⟩ := nextEvent_inv hqueue h
    · cases he
    · exact Except.error.inj he
  | cons e' events =>
    obtain ⟨driver, port, queue⟩ := radio
    obtain rfl : queue = e' :: events := hqueue
    cases h

/-- `next_event` returns the first event of the queue when the pump has failed or the deadline has
passed. -/
theorem nextEvent_last {r : Except Error Event} (hempty : radio.events = [])
    (h : radio.nextEvent timeout = .ok (r, radio')) :
    ∃ events, ((∃ e, r = .ok e ∧ events = e :: radio'.events) ∨
        r = .error .timeout ∧ events = [] ∧ radio'.events = []) ∧
      ((∃ e, radio.FailsWith timeout events e) ∨
        radio.TimesOut timeout events radio'.port.clock) := by
  obtain ⟨start, clock, ⟨result, events, d', port'⟩, hclock, hp, -, hport, hcase⟩ :=
    nextEvent_inv hempty h
  refine ⟨events, hcase, ?_⟩
  obtain ⟨events₁, d, port, r, hat, hloop, hevents, hends⟩ := exists_last_loop hp
  obtain rfl : events = events₁ ++ r.events := hevents
  rcases hends with ⟨out, hstop, -⟩ | ⟨e, hstop, -⟩ | ⟨hstop, e, -, hturn⟩
  · obtain ⟨-, -, _, hout⟩ := (pollLoop_end hloop).2.1 out hstop
    cases hout
  · obtain ⟨htx, hwrites, hnil⟩ := (pollLoop_end hloop).2.2 e hstop
    rw [hnil, List.append_nil]
    exact Or.inl ⟨_, .write ⟨hempty, start, clock, hclock, hat⟩ htx hwrites⟩
  · obtain ⟨stop, events₂, d₁, writes⟩ := r
    obtain rfl : stop = .idle := hstop
    have hat : TurnAt (turn (start + timeout)) matchesNone radio.driver { radio.port with clock }
        (events₁ ++ events₂) d₁ { port with writes } := ⟨_, _, _, _, _, hat, hloop, rfl, rfl⟩
    have hreads : radio.ReadsAt timeout _ _ _ := ⟨hempty, start, clock, hclock, hat⟩
    obtain ⟨seen, hseen, -⟩ := clock_of_turnAt hat
    rw [hport]
    cases turn_spec hturn with
    | @delivered _ _ _ now clock' _ _ _ _ hnow _ hr =>
      refine Or.inr ⟨d₁, _, start, seen ++ [now], now, hreads, ?_, by simp, ?_⟩
      · have hseen : clock = seen ++ port.clock := hseen
        have hnow : port.clock = now :: clock' := hnow
        rw [hclock, hseen, hnow]
        simp
      · by_contra hlt
        rw [if_neg hlt] at hr
        cases hr
    | failed hread => exact Or.inl ⟨_, .read hreads hread⟩
    | overflow hread hfull => exact Or.inl ⟨_, .overflow hreads hread hfull⟩

/-- An event that comes up in `next_event` is returned only behind another read. -/
theorem readsAt_of_returned {e : Event} (hempty : radio.events = [])
    (h : radio.nextEvent timeout = .ok (.ok e, radio')) :
    ∃ events d port, radio.ReadsAt timeout (e :: events) d port := by
  obtain ⟨events, hcase, hends⟩ := nextEvent_last hempty h
  obtain rfl : events = e :: radio'.events := by
    rcases hcase with ⟨_, he, hevents⟩ | ⟨he, -⟩
    · cases he
      exact hevents
    · cases he
  rcases hends with ⟨_, hfails⟩ | ⟨d, port, _, _, _, hat, -⟩
  · cases hfails with
    | write hat htx =>
      -- only the first loop has anything to send, and no event has come up before it
      obtain ⟨-, _, _, -, hat⟩ := hat
      rcases sent_of_loopAt hat with ⟨-, hnil⟩ | hsent
      · cases hnil
      · exact absurd htx (Nat.not_lt.mpr hsent)
    | read hat | overflow hat => exact ⟨_, _, _, hat⟩
  · exact ⟨_, _, _, hat⟩

/-- A failure before the first event is reported as `Error::Timeout`, with time left. -/
theorem timeout_of_failsWith {e : Error} (h : radio.FailsWith timeout [] e) :
    ∃ radio' start seen, radio.nextEvent timeout = .ok (.error .timeout, radio') ∧
      radio.port.clock = start :: seen ++ radio'.port.clock ∧
      ∀ now ∈ seen, now < start + timeout := by
  -- what is left of the clock behind the failure is what was left before it
  have hreturns {start : Nat} {clock seen : List Nat} {d : Driver} {port : Port} {e : Error}
      (hempty : radio.events = []) (hclock : radio.port.clock = start :: clock)
      (hpump : pump (turn (start + timeout)) .io matchesNone radio.driver
        { radio.port with clock } = .ok ⟨.error e, [], d, port⟩)
      (hseen : clock = seen ++ port.clock) :
      radio.nextEvent timeout = .ok (.error .timeout, ⟨d, port, []⟩) ∧
        radio.port.clock = start :: seen ++ port.clock := by
    refine ⟨nextEvent_of_pump hempty hclock hpump rfl, ?_⟩
    rw [hclock, hseen, List.cons_append]
  cases h with
  | @write d port e writes hat htx hwrites =>
    obtain ⟨hempty, start, clock, hclock, hat⟩ := hat
    obtain ⟨seen, hseen, hlt⟩ := clock_of_loopAt hat
    have hloop : pump (turn (start + timeout)) .io matchesNone d port =
        .ok ⟨.error (.io e), [], { d with txInFlight := d.tx.len }, { port with writes }⟩ := by
      rw [pump, pollLoop_of_needTx htx, hwrites]
    have hpump := (pump_of_loopAt hat).trans (congrArg _ hloop)
    obtain ⟨hcall, hleft⟩ := hreturns hempty hclock hpump hseen
    exact ⟨_, start, seen, hcall, hleft, hlt⟩
  | @read d port code reads hat hread =>
    obtain ⟨hempty, start, clock, hclock, hat⟩ := hat
    obtain ⟨seen, hseen, hlt⟩ := clock_of_turnAt hat
    obtain ⟨hcall, hleft⟩ :=
      hreturns hempty hclock (pump_of_turnAt hat (turn_of_failed hread)) hseen
    exact ⟨_, start, seen, hcall, hleft, hlt⟩
  | @overflow d port bytes reads hat hread hfull =>
    obtain ⟨hempty, start, clock, hclock, hat⟩ := hat
    obtain ⟨seen, hseen, hlt⟩ := clock_of_turnAt hat
    obtain ⟨d', hturn⟩ := turn_of_overflow hread hfull
    obtain ⟨hcall, hleft⟩ := hreturns hempty hclock (pump_of_turnAt hat hturn) hseen
    exact ⟨_, start, seen, hcall, hleft, hlt⟩

/-- When no event is ahead in any loop, none is queued. -/
theorem nil_of_loopsAt {events : List Event} {d : Driver} {port : Port}
    (hfinds : ¬ radio.FindsEvent timeout) (hat : radio.LoopsAt timeout events d port) :
    events = [] ∧ loopEvents matchesNone d port.writes = [] := by
  have hnone {events : List Event} {d : Driver} {port : Port}
      (hat : radio.LoopsAt timeout events d port) :
      loopEvents matchesNone d port.writes = [] := by
    by_contra hne
    obtain ⟨d', hwrite, hahead⟩ := (loopEvents_iff fun _ => rfl).mp hne
    exact hfinds ⟨events, d, port, d', hat, hwrite, hahead⟩
  refine ⟨?_, hnone hat⟩
  obtain ⟨hempty, start, clock, hclock, hat⟩ := hat
  exact events_of_loopAt hat fun events d port h => hnone ⟨hempty, start, clock, hclock, h⟩

end Radio

open Radio in
/-- **Stop at the first event.** `next_event` reads no more when an event is queued, and returns the
oldest one, exactly when no event is ahead in any of its loops. -/
theorem stops_at_event_iff [Target] (radio : Radio) (timeout : Nat) :
    radio.StopsAtEvent timeout ↔ ¬ radio.FindsEvent timeout := by
  constructor
  · rintro ⟨hreads, hreturns⟩ ⟨events, d, port, d', hat, hwrite, hahead⟩
    have hloop : loopEvents matchesNone d port.writes ≠ [] :=
      (loopEvents_iff fun _ => rfl).mpr ⟨d', hwrite, hahead⟩
    obtain ⟨e, queue, hqueue⟩ :=
      List.exists_cons_of_ne_nil (List.append_ne_nil_of_right_ne_nil events hloop)
    obtain ⟨radio', hcall, -⟩ :=
      hreturns e queue _ (Or.inr ⟨events, d, port, hat, hqueue.symm, rfl⟩)
    obtain ⟨_, _, _, hread⟩ := readsAt_of_returned hat.1 hcall
    exact List.cons_ne_nil _ _ (hreads _ _ _ hread).1
  · intro hfinds
    constructor
    · rintro events d port ⟨hempty, start, clock, hclock, hat⟩
      obtain ⟨seen, hseen, hlt⟩ := clock_of_turnAt hat
      refine ⟨?_, start, seen, ?_, hlt⟩
      · obtain ⟨events₁, d₁, port₁, events₂, writes, hat, hloop, rfl, -⟩ := hat
        obtain ⟨rfl, hnil⟩ := nil_of_loopsAt hfinds ⟨hempty, start, clock, hclock, hat⟩
        rw [loopEvents_of_ok hloop] at hnil
        exact hnil
      · have hseen : clock = seen ++ port.clock := hseen
        rw [hclock, hseen, List.cons_append]
    · rintro e queue reads (⟨hq, hreads⟩ | ⟨events, d, port, hat, hq, -⟩)
      · obtain ⟨driver, port, events⟩ := radio
        obtain rfl : e :: queue = events := hq
        exact ⟨_, rfl, hreads.symm⟩
      · obtain ⟨rfl, hnil⟩ := nil_of_loopsAt hfinds hat
        rw [hnil] at hq
        cases hq

section

attribute [local instance] Target.host

/-- An event comes with the first read, and `next_event` reads again before it returns it. -/
theorem reads_behind_event : ¬ ∀ (radio : Radio) (timeout : Nat), radio.StopsAtEvent timeout := by
  intro h
  have hcall : ((Radio.fromPort ⟨[], [.ok ⟨utf8 "+RCV=5,2,hi,-40,10\r\n", by decide⟩,
      .error .timedOut], [0, 1, defaultTimeout]⟩).nextEvent defaultTimeout).map Prod.fst =
        .ok (.ok (.recv 5 (utf8 "hi") (-40) 10)) := by
    decide +kernel
  obtain ⟨⟨_, radio'⟩, hcall, rfl⟩ := Except.map_eq_ok.mp hcall
  obtain ⟨_, _, _, hread⟩ := Radio.readsAt_of_returned rfl hcall
  exact List.cons_ne_nil _ _ ((h _ _).reads _ _ _ hread).1

end

open Radio in
/-- **Failures are told from timeouts.** `next_event` returns `Error::Timeout` only when the
deadline has passed, and a failure as what it is, exactly when no failure ends the pump before an
event is queued. -/
theorem reports_failures_iff [Target] (radio : Radio) (timeout : Nat) :
    radio.ReportsFailures timeout ↔ ∀ e, ¬ radio.FailsWith timeout [] e := by
  constructor
  · intro h e hfails
    obtain ⟨radio', start, seen, hcall, hclock, hlt⟩ := timeout_of_failsWith hfails
    obtain ⟨-, _, _, start', seen', now, -, hclock', hmem, hnow⟩ := h.timeout_only radio' hcall
    rw [hclock] at hclock'
    obtain ⟨rfl, rfl⟩ := List.cons.inj (List.append_cancel_right hclock')
    exact absurd (hlt now hmem) (Nat.not_lt.mpr hnow)
  · intro hnone
    refine ⟨fun radio' hcall => ?_, fun e hfails => absurd hfails (hnone e)⟩
    have hempty : radio.events = [] := by
      obtain ⟨driver, port, events⟩ := radio
      cases events with
      | nil => rfl
      | cons e events => cases hcall
    obtain ⟨events, hcase, hends⟩ := nextEvent_last hempty hcall
    rcases hcase with ⟨_, he, -⟩ | ⟨-, rfl, hevents⟩
    · cases he
    rcases hends with ⟨e, hfails⟩ | hlate
    · exact absurd hfails (hnone e)
    · exact ⟨hevents, hlate⟩

section

attribute [local instance] Target.host

/-- The port is dead from the first read on, and `next_event` reports a timeout at once. -/
theorem dead_port_times_out :
    ¬ ∀ (radio : Radio) (timeout : Nat), radio.events = [] → radio.ReportsFailures timeout := by
  intro h
  have hcall : ((Radio.fromPort ⟨[], [.error (.other 5)], [0]⟩).nextEvent defaultTimeout).map
      Prod.fst = .ok (.error .timeout) := by
    decide +kernel
  have hpoll : Driver.new.poll = .ok (.idle, .new) := by decide +kernel
  have hread : (Radio.fromPort ⟨[], [.error (.other 5)], [0]⟩).ReadsAt defaultTimeout [] .new
      ⟨[], [.error (.other 5)], []⟩ :=
    ⟨rfl, 0, [], rfl, [], _, _, [], [], .first, pollLoop_of_idle hpoll, rfl, rfl⟩
  obtain ⟨radio', hfailed⟩ :=
    (h _ defaultTimeout rfl).failure (.io (.other 5)) (.read hread rfl) nofun nofun
  rw [hfailed] at hcall
  cases hcall

end

end Std

end Rylr998
