import Rylr998.Core.Equiv.Pairing
import Rylr998.Host.Equiv.Slot

/-!
# One exchange, three loops

While the driver waits for the reply to a command, every response it returns is one that the command
expects (`expects_of_next`). So the loop over `Driver::poll` ends with the first response, whatever
the method does with others (`pollLoop_expected`), and a loop around it whose turns hand the
driver one chunk after the other is an `exchange` (`pump_eq_exchange`).
-/

namespace Rylr998

open Framing

/-! ### Responses -/

/-- The response answers the command, and a password in it has at most eight bytes. -/
def Command.Expects (cmd : Command) (r : Response) : Prop :=
  cmd.answeredBy r = true ∧ ∀ s, r = .cpin s → s.utf8ByteSize ≤ 8

theorem utf8ByteSize_of_isReply {kind : AwaitKind} {line : List UInt8} {s : String}
    (h : IsReply kind line (.cpin s)) : s.utf8ByteSize ≤ 8 := by
  cases h with
  | query hvalue =>
    cases hvalue with
    | noPassword => exact Nat.zero_le 8
    | cpin _ hlen => exact Nat.le_of_eq hlen

section Lines

variable [Target] {m m' : Mode} {cmd : Command} {rx rx' : List UInt8} {o : Option Output}

theorem expects_of_next (hm : m.Serves cmd) (h : driverMachine.next m rx = .ok (o, m', rx')) :
    m'.Serves cmd ∧ ∀ r, o = some (.response r) → cmd.Expects r := by
  obtain ⟨skipped, -, ⟨rfl, rfl, -⟩ | ⟨line, -, hreact, -⟩⟩ := LineMachine.next_inv h
  · exact ⟨hm, by simp⟩
  · constructor
    · by_cases ho : m' ≠ m ∨ ∃ r, o = some (.response r)
      · obtain ⟨rfl, -⟩ := inFlight_of_react hreact ho
        exact ⟨by simp [Mode.idle], by simp [Mode.idle]⟩
      · push Not at ho
        rw [ho.1]
        exact hm
    · rintro r rfl
      refine ⟨answeredBy_of_react hm hreact, ?_⟩
      rintro s rfl
      rcases isReply_of_react hm hreact with ⟨-, hok⟩ | hreply
      · cases hok
      · exact utf8ByteSize_of_isReply hreply

end Lines

/-! ### The loop over `Driver::poll` -/

/-- The driver has nothing to send, and waits for the reply to `cmd` or for none. -/
structure Driver.Awaits (d : Driver) (cmd : Command) : Prop where
  sent : d.Sent
  serves : d.mode.Serves cmd

theorem Driver.Awaits.poll [Target] {d d' : Driver} {cmd : Command} {p : Poll} (hd : d.Awaits cmd)
    (h : d.poll = .ok (p, d')) :
    d'.Awaits cmd ∧ (∀ bytes, p ≠ .needTx bytes) ∧ ∀ r, p = .response r → cmd.Expects r := by
  obtain ⟨o, rfl, hnext⟩ := poll_next hd.sent h
  obtain ⟨hserves, hexpects⟩ := expects_of_next hd.serves hnext
  refine ⟨⟨sent_of_poll h, hserves⟩, ?_, ?_⟩
  · intro bytes hp
    exact pollOf_ne_needTx o bytes hp
  · intro r hr
    exact hexpects r (pollOf_injective hr)

/-- The loop that ends with the first response. It writes nothing. -/
def firstResponse [Target] (d : Driver) : Except Halt (Looped Empty Response) := pollLoop some d []

/-- The end of a loop, told from the one of `firstResponse`. -/
def Looped.answered {ω α : Type} (out : Response → α) (writes : List (Except ω Unit))
    (l : Looped Empty Response) : Looped ω α where
  stop := match l.stop with
    | .idle => .idle
    | .wanted r => .wanted (out r)
    | .failed e => e.elim
  events := l.events
  driver := l.driver
  writes := writes

section Loop

variable [Target] {ω α : Type} {cmd : Command} {want : Response → Option α} {out : Response → α}
  {d : Driver} {writes : List (Except ω Unit)}

/-- **The loop ends with the first response**, when the method has a result for every response that
the command expects. -/
theorem pollLoop_expected (hwant : ∀ r, cmd.Expects r → want r = some (out r))
    (hd : d.Awaits cmd) :
    pollLoop want d writes = (firstResponse d).map (Looped.answered out writes) := by
  unfold firstResponse
  induction d, writes using pollLoop.induct want with
  | case1 d writes f hpoll =>
    rw [pollLoop_of_error hpoll, pollLoop_of_error hpoll]
    rfl
  | case2 d writes d' hpoll =>
    rw [pollLoop_of_idle hpoll, pollLoop_of_idle hpoll]
    rfl
  | case3 d writes e d' hpoll hlt ih =>
    rw [pollLoop_of_event hpoll, pollLoop_of_event hpoll, ih (hd.poll hpoll).1]
    cases pollLoop some d' ([] : List (Except Empty Unit)) <;> rfl
  | case4 d writes r d' hpoll hlt out' hout =>
    have hr := hwant r ((hd.poll hpoll).2.2 r rfl)
    rw [pollLoop_of_response hpoll, pollLoop_of_response hpoll, hr]
    rfl
  | case5 d writes r d' hpoll hlt hnone =>
    cases (hwant r ((hd.poll hpoll).2.2 r rfl)).symm.trans hnone
  | case6 d bytes d' hpoll | case7 d bytes d' hpoll | case8 d bytes d' hpoll
  | case9 d bytes d' hpoll => exact absurd rfl ((hd.poll hpoll).2.1 bytes)

/-- The loop leaves the driver waiting for the same reply or for none. -/
theorem pollLoop_awaits (hd : d.Awaits cmd) {l : Looped ω Response}
    (h : pollLoop some d writes = .ok l) :
    l.driver.Awaits cmd ∧ ∀ r, l.stop = .wanted r → cmd.Expects r := by
  induction d, writes using pollLoop.induct some generalizing l with
  | case1 d writes f hpoll =>
    rw [pollLoop_of_error hpoll] at h
    cases h
  | case2 d writes d' hpoll =>
    rw [pollLoop_of_idle hpoll] at h
    cases h
    exact ⟨(hd.poll hpoll).1, by simp⟩
  | case3 d writes e d' hpoll hlt ih =>
    rw [pollLoop_of_event hpoll] at h
    obtain ⟨l', hloop, rfl⟩ := Except.map_eq_ok.mp h
    obtain ⟨hawaits, hexpects⟩ := ih (hd.poll hpoll).1 hloop
    exact ⟨hawaits, hexpects⟩
  | case4 d writes r d' hpoll hlt out' hout =>
    rw [pollLoop_of_response hpoll] at h
    cases h
    obtain ⟨hawaits, -, hexpects⟩ := hd.poll hpoll
    refine ⟨hawaits, ?_⟩
    intro r' hr
    obtain rfl := LoopEnd.wanted.inj hr
    exact hexpects r rfl
  | case5 d writes r d' hpoll hlt hnone => cases hnone
  | case6 d bytes d' hpoll | case7 d bytes d' hpoll | case8 d bytes d' hpoll
  | case9 d bytes d' hpoll => exact absurd rfl ((hd.poll hpoll).2.1 bytes)

end Loop

/-! ### The loop around it -/

/-- The failures that the three crates have in common. -/
inductive Failure where
  | core (e : Error)
  | radio (code : UInt8)
  deriving DecidableEq

/-- A call as its caller sees it. -/
structure Outcome (ε α : Type) where
  result : Except ε α
  /-- The events that have come up, in order. -/
  events : List Event
  driver : Driver
  /-- The number of reads that are left. -/
  left : Nat
  deriving DecidableEq

/-- What the caller sees of a call. -/
def Pumped.outcome {ω ρ ε α : Type} (p : Pumped ω ρ ε α) : Outcome ε α :=
  ⟨p.result, p.events, p.driver, p.port.reads.length⟩

/-- The same call with the error of another crate. -/
def Outcome.mapError {ε ε' α : Type} (f : ε → ε') (o : Outcome ε α) : Outcome ε' α :=
  { o with result := o.result.mapError f }

/-- The same call after `events` have come up. -/
def Outcome.after {ε α : Type} (events : List Event) (o : Outcome ε α) : Outcome ε α :=
  { o with events := events ++ o.events }

/-- The exchange behind a command: the driver is handed one chunk after the other until it returns a
response, of which `out` is the result. -/
def exchange [Target] {α : Type} (out : Response → Except Failure α) (d : Driver)
    (chunks : List Chunk) : Except Halt (Outcome Failure α) :=
  match firstResponse d with
  | .error halt => .error halt
  | .ok ⟨.wanted r, events, d, _⟩ => .ok ⟨out r, events, d, chunks.length⟩
  | .ok ⟨.idle, events, d, _⟩ =>
    match chunks with
    | [] => .error .blocked
    | chunk :: chunks =>
      match d.pushRx chunk with
      | .error f => .error (.panicked f)
      | .ok (.error e, d) => .ok ⟨.error (.core e), events, d, chunks.length⟩
      | .ok (.ok _, d) => (exchange out d chunks).map (Outcome.after events)

/-- A turn hands the driver the chunks that the port has for it, unless they overflow `rx` and
`lossy` says that this is not noticed. -/
structure Turn.Feeds {ω ρ ε : Type} (turn : Turn ω ρ ε) (error : Failure → ε) (lossy : Prop)
    (R : List Chunk → Port ω ρ → Prop) : Prop where
  length : ∀ {chunks port}, R chunks port → port.reads.length = chunks.length
  writes : ∀ {chunks port}, R chunks port → ∀ writes, R chunks { port with writes }
  blocked : ∀ {port}, R [] port → ∀ d, turn.run d port = .error .blocked
  push : ∀ {chunk chunks port}, R (chunk :: chunks) port → ∀ {d d' n},
    d.pushRx chunk = .ok (.ok n, d') →
    ∃ port', turn.run d port = .ok (.ok (), d', port') ∧ R chunks port'
  overflow : ∀ {chunk chunks port}, R (chunk :: chunks) port → ∀ {d d' e},
    d.pushRx chunk = .ok (.error e, d') → ¬ lossy →
    ∃ port', turn.run d port = .ok (.error (error (.core e)), d', port') ∧
      port'.reads.length = chunks.length

section Exchange

variable [Target] {ω ρ ε α : Type} {turn : Turn ω ρ ε} {io : ω → ε} {error : Failure → ε}
  {lossy : Prop} {R : List Chunk → Port ω ρ → Prop} {cmd : Command}
  {want : Response → Option (Except ε α)} {out : Response → Except Failure α}

/-- **The loop of a crate is an exchange**, when the method has a result for every response that the
command expects. -/
theorem pump_eq_exchange (hturn : turn.Feeds error lossy R)
    (hwant : ∀ r, cmd.Expects r → want r = some ((out r).mapError error)) {chunks : List Chunk}
    {d : Driver} (hd : d.Awaits cmd) {port : Port ω ρ} (hport : R chunks port)
    (hlossy : lossy → ∀ o, exchange out d chunks = .ok o → o.result ≠ .error (.core .rxOverflow)) :
    (pump turn io want d port).map Pumped.outcome =
      (exchange out d chunks).map (Outcome.mapError error) := by
  induction hlen : chunks.length using Nat.strong_induction_on generalizing chunks d port with
  | _ n ih =>
  subst hlen
  -- both sides begin with the same loop: `want` ends it at the first response
  have hloop := @pollLoop_expected _ _ _ _ want _ d port.writes hwant hd
  rw [exchange] at hlossy ⊢
  rcases hfirst : firstResponse d with halt | ⟨stop, events, d₁, writes⟩
  · rw [hfirst] at hloop
    rw [pump_of_error hloop]
    rfl
  rw [hfirst] at hloop hlossy
  cases stop with
  | failed e => exact e.elim
  | wanted r =>
    rw [pump_of_wanted hloop]
    apply congrArg Except.ok
    rw [Pumped.outcome, hturn.length (hturn.writes hport port.writes)]
    rfl
  | idle =>
    have hport := hturn.writes hport port.writes
    cases chunks with
    | nil =>
      rw [pump_of_halt hloop (hturn.blocked hport d₁)]
      rfl
    | cons chunk chunks =>
      -- no response yet, so the driver still waits, and the turn pushes the next chunk
      obtain ⟨hd₁, -⟩ := pollLoop_awaits hd hfirst
      dsimp only at hlossy ⊢
      rcases Nat.lt_or_ge rxBuf (d₁.rx.len + chunk.val.length) with hfull | hfit
      · obtain ⟨rx, hpush, -⟩ := Driver.pushRx_of_lt hfull
        rw [hpush] at hlossy ⊢
        have hseen : ¬ lossy := fun h => hlossy h _ rfl rfl
        obtain ⟨port', hrun, hleft⟩ := hturn.overflow hport hpush hseen
        rw [pump_of_giveUp hloop hrun]
        apply congrArg Except.ok
        rw [Pumped.outcome, hleft]
        rfl
      · obtain ⟨d₂, hpush, hd₂⟩ :
            ∃ d₂, d₁.pushRx chunk = .ok (.ok chunk.val.length, d₂) ∧ d₂.Awaits cmd :=
          ⟨_, Driver.pushRx_of_le hfit, hd₁.sent, hd₁.serves⟩
        obtain ⟨port', hrun, hport'⟩ := hturn.push hport hpush
        rw [hpush] at hlossy ⊢
        dsimp only at hlossy ⊢
        have hrest := ih chunks.length (Nat.lt_succ_self _) hd₂ hport' ?_ rfl
        · -- the events of this loop come before those of the rest
          have hevents (x : Except Halt (Pumped ω ρ ε α)) :
              (x.map fun p => { p with events := events ++ p.events }).map Pumped.outcome =
                (x.map Pumped.outcome).map (Outcome.after events) := by
            cases x <;> rfl
          rw [pump_of_turn hloop hrun, hevents, hrest]
          cases exchange out d₂ chunks <;> rfl
        · intro h o ho
          rw [ho] at hlossy
          exact hlossy h (o.after events) rfl

end Exchange

/-- The result goes through `f`. -/
def Outcome.bind {ε α β : Type} (f : α → Except ε β) (o : Outcome ε α) : Outcome ε β :=
  { o with result := o.result >>= f }

section Exchange

variable [Target] {α : Type} {cmd : Command} {out : Response → Except Failure α}

/-- An exchange may return the response first, and what is made of it afterwards. -/
theorem exchange_eq_bind (out : Response → Except Failure α) (d : Driver) (chunks : List Chunk) :
    exchange out d chunks = (exchange .ok d chunks).map (Outcome.bind out) := by
  induction chunks generalizing d with
  | nil =>
    rw [exchange, exchange]
    rcases firstResponse d with halt | ⟨⟨⟩ | r | e, events, d₁, writes⟩
    · rfl
    · rfl
    · rfl
    · exact e.elim
  | cons chunk chunks ih =>
    rw [exchange, exchange]
    rcases firstResponse d with halt | ⟨⟨⟩ | r | e, events, d₁, writes⟩
    · rfl
    · dsimp only
      rcases d₁.pushRx chunk with f | ⟨e | n, d₂⟩
      · rfl
      · rfl
      · dsimp only
        rw [ih d₂]
        cases exchange (.ok : Response → Except Failure Response) d₂ chunks <;> rfl
    · rfl
    · exact e.elim

/-- An exchange ends with an expected response or with an overflow of `rx`. -/
theorem exchange_result {d : Driver} (hd : d.Awaits cmd) {chunks : List Chunk}
    {o : Outcome Failure α} (h : exchange out d chunks = .ok o) :
    (∃ r, cmd.Expects r ∧ o.result = out r) ∨ o.result = .error (.core .rxOverflow) := by
  induction chunks generalizing d o with
  | nil =>
    rw [exchange] at h
    rcases hfirst : firstResponse d with halt | ⟨stop, events, d₁, writes⟩
    · rw [hfirst] at h
      cases h
    rw [hfirst] at h
    cases stop with
    | failed e => exact e.elim
    | wanted r =>
      cases h
      exact Or.inl ⟨r, (pollLoop_awaits hd hfirst).2 r rfl, rfl⟩
    | idle => cases h
  | cons chunk chunks ih =>
    rw [exchange] at h
    rcases hfirst : firstResponse d with halt | ⟨stop, events, d₁, writes⟩
    · rw [hfirst] at h
      cases h
    rw [hfirst] at h
    obtain ⟨hd₁, hexpects⟩ := pollLoop_awaits hd hfirst
    cases stop with
    | failed e => exact e.elim
    | wanted r =>
      cases h
      exact Or.inl ⟨r, hexpects r rfl, rfl⟩
    | idle =>
      dsimp only at h
      rcases Nat.lt_or_ge rxBuf (d₁.rx.len + chunk.val.length) with hfull | hfit
      · obtain ⟨rx, hpush, -⟩ := Driver.pushRx_of_lt hfull
        rw [hpush] at h
        cases h
        exact Or.inr rfl
      · have hd₂ : Driver.Awaits { d₁ with rx := d₁.rx.append chunk.val hfit } cmd :=
          ⟨hd₁.sent, hd₁.serves⟩
        rw [Driver.pushRx_of_le hfit] at h
        obtain ⟨o, ho, rfl⟩ := Except.map_eq_ok.mp h
        have hresult := ih hd₂ ho
        exact hresult

end Exchange

/-! ### A command -/

/-- What a command method comes to: the command is submitted and written, then it is exchanged. -/
def transact [Target] {α : Type} (cmd : Command) (out : Response → Except Failure α) (d : Driver)
    (chunks : List Chunk) : Except Halt (Outcome Failure α) :=
  match d.submit cmd with
  | .error f => .error (.panicked f)
  | .ok (.error e, d) => .ok ⟨.error (.core e), [], d, chunks.length⟩
  | .ok (.ok (), d) => exchange out d.flushed chunks

theorem transact_eq_bind [Target] {α : Type} (cmd : Command) (out : Response → Except Failure α)
    (d : Driver) (chunks : List Chunk) :
    transact cmd out d chunks = (transact cmd .ok d chunks).map (Outcome.bind out) := by
  unfold transact
  rcases d.submit cmd with f | ⟨e | ⟨⟩, d₁⟩
  · rfl
  · rfl
  · exact exchange_eq_bind out d₁.flushed chunks

section Transact

variable [Target] {α : Type} {cmd : Command} {out : Response → Except Failure α} {d : Driver}
  (hd : Reachable d) (hidle : d.state = .idle)

include hd hidle

/-- After the write the driver waits for the reply to the command, or for none. -/
theorem awaits_flushed (hfit : d.tx.len + (wire cmd).length ≤ txBuf) :
    (d.accept cmd hfit).flushed.Awaits cmd := by
  obtain ⟨hmode, hsent, -⟩ := flushed_accept hd.inv hidle hfit
  refine ⟨hsent, ?_⟩
  rw [hmode]
  refine ⟨?_, of_decide_eq_true⟩
  intro kind hkind
  unfold sentMode at hkind
  split_ifs at hkind
  exact (State.awaiting.inj hkind).symm

/-- A command ends with an expected response, with an overflow, or is refused. -/
theorem transact_result {chunks : List Chunk} {o : Outcome Failure α}
    (h : transact cmd out d chunks = .ok o) :
    (∃ r, cmd.Expects r ∧ o.result = out r) ∨ o.result = .error (.core .rxOverflow) ∨
      o.result = .error (.core .txOverflow) := by
  unfold transact at h
  rcases Nat.lt_or_ge txBuf (d.tx.len + (wire cmd).length) with hfull | hfit
  · rw [Driver.submit_overflow hidle hfull] at h
    cases h
    exact Or.inr (Or.inr rfl)
  · rw [Driver.submit_accept hidle hfit] at h
    rcases exchange_result (awaits_flushed hd hidle hfit) h with hr | hr
    · exact Or.inl hr
    · exact Or.inr (Or.inl hr)

/-- The loop of a crate after its command is accepted. -/
theorem pump_accept_eq_exchange {ω ρ ε : Type} {turn : Turn ω ρ ε} {io : ω → ε}
    {error : Failure → ε} {lossy : Prop} {R : List Chunk → Port ω ρ → Prop}
    {want : Response → Option (Except ε α)} (hfit : d.tx.len + (wire cmd).length ≤ txBuf)
    (hturn : turn.Feeds error lossy R)
    (hwant : ∀ r, cmd.Expects r → want r = some ((out r).mapError error)) {chunks : List Chunk}
    {port : Port ω ρ} (hport : R chunks port) (hwrite : ∃ writes, port.writes = .ok () :: writes)
    (hlossy : lossy → ∀ o, transact cmd out d chunks = .ok o →
      o.result ≠ .error (.core .rxOverflow)) :
    (pump turn io want (d.accept cmd hfit) port).map Pumped.outcome =
      (transact cmd out d chunks).map (Outcome.mapError error) := by
  have htransact : transact cmd out d chunks = exchange out (d.accept cmd hfit).flushed chunks := by
    rw [transact, Driver.submit_accept hidle hfit]
  obtain ⟨writes, hwrites⟩ := hwrite
  rw [htransact] at hlossy ⊢
  rw [pump_accept_eq hd.inv hidle hfit hwrites]
  exact pump_eq_exchange hturn hwant (awaits_flushed hd hidle hfit) (hturn.writes hport writes)
    hlossy

end Transact

end Rylr998
