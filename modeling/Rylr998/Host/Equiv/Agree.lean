import Rylr998.Host.Equiv.Exchange

/-!
# The three radios agree

The command methods that the blocking radio, the async radio and the radio for microcontrollers
have in common (`SharedMethod`) do the same, when they are started with the same idle driver and
handed the same chunks before the deadline, without an error of the port and without overflow: they
return the same after as many chunks, hand on the same events, and leave the same driver
(`radios_agree`). Each of them is a `transact` of the driver alone.
-/

namespace Rylr998

/-- A command method that all three radios have. -/
inductive SharedMethod : Type → Type where
  | ping : SharedMethod Unit
  | setAddress (n : UInt16) : SharedMethod Unit
  | address : SharedMethod UInt16
  | setNetworkId (n : UInt8) : SharedMethod Unit
  | networkId : SharedMethod UInt8
  | setBand (hz : UInt32) : SharedMethod Unit
  | band : SharedMethod UInt32
  | cpin : SharedMethod String
  | setCpin (password : List UInt8) : SharedMethod Unit
  | setParameters (p : RfParams) : SharedMethod Unit
  | parameters : SharedMethod RfParams
  | crfop : SharedMethod UInt8
  | factoryReset : SharedMethod Unit
  | send (toAddr : UInt16) (data : List UInt8) : SharedMethod Unit

namespace SharedMethod

variable {α : Type}

/-- The method of the blocking radio. -/
def std [Target] (radio : Std.Radio) : SharedMethod α → Except Halt (Except Std.Error α × Std.Radio)
  | ping => radio.ping
  | setAddress n => radio.setAddress n
  | address => radio.address
  | setNetworkId n => radio.setNetworkId n
  | networkId => radio.networkId
  | setBand hz => radio.setBand hz
  | band => radio.band
  | cpin => radio.cpin
  | setCpin password => radio.setCpin password
  | setParameters p => radio.setParameters p
  | parameters => radio.parameters
  | crfop => radio.crfop
  | factoryReset => radio.factoryReset
  | send toAddr data => radio.send toAddr data

/-- The method of the async radio: the job, and the `match` of the handle. -/
def tokio [Target] (d : Driver) (port : Tokio.Port) :
    SharedMethod α → Except Halt (Pumped ErrorKind Tokio.Read Tokio.Error α)
  | ping => Tokio.ping d port
  | setAddress n => Tokio.setAddress d port n
  | address => Tokio.address d port
  | setNetworkId n => Tokio.setNetworkId d port n
  | networkId => Tokio.networkId d port
  | setBand hz => Tokio.setBand d port hz
  | band => Tokio.band d port
  | cpin => Tokio.cpin d port
  | setCpin password => Tokio.setCpin d port password
  | setParameters p => Tokio.setParameters d port p
  | parameters => Tokio.parameters d port
  | crfop => Tokio.crfop d port
  | factoryReset => Tokio.factoryReset d port
  | send toAddr data => Tokio.send d port toAddr data

/-- The method of the radio for microcontrollers. -/
def embassy [Target] {ε : Type} (radio : Embassy.Radio ε) (tickHz : Nat) :
    SharedMethod α → Except Halt (Except (Embassy.Error ε) α × Embassy.Radio ε)
  | ping => radio.ping tickHz
  | setAddress n => radio.setAddress tickHz n
  | address => radio.address tickHz
  | setNetworkId n => radio.setNetworkId tickHz n
  | networkId => radio.networkId tickHz
  | setBand hz => radio.setBand tickHz hz
  | band => radio.band tickHz
  | cpin => radio.cpin tickHz
  | setCpin password => radio.setCpin tickHz password
  | setParameters p => radio.setParameters tickHz p
  | parameters => radio.parameters tickHz
  | crfop => radio.crfop tickHz
  | factoryReset => radio.factoryReset tickHz
  | send toAddr data => radio.send tickHz toAddr data

/-- The command of the method. -/
def command : SharedMethod α → Command
  | ping => .ping
  | setAddress n => .setAddress n
  | address => .getAddress
  | setNetworkId n => .setNetworkId n
  | networkId => .getNetworkId
  | setBand hz => .setBand hz
  | band => .getBand
  | cpin => .getCpin
  | setCpin password => .setCpin password
  | setParameters p => .setParameters p
  | parameters => .getParameters
  | crfop => .getCrfop
  | factoryReset => .factoryReset
  | send toAddr data => .send toAddr data

/-- What the method finds in a response. -/
def value : SharedMethod α → Response → Option α
  | address, .address n => some n
  | networkId, .networkId n => some n
  | band, .band n => some n
  | cpin, .cpin s => some s
  | parameters, .parameters p => some p
  | crfop, .crfop n => some n
  | ping, .ok => some ()
  | setAddress _, .ok => some ()
  | setNetworkId _, .ok => some ()
  | setBand _, .ok => some ()
  | setCpin _, .ok => some ()
  | setParameters _, .ok => some ()
  | factoryReset, .ok => some ()
  | send _ _, .ok => some ()
  | _, _ => none

/-- What the method returns for a response. -/
def out (m : SharedMethod α) (r : Response) : Except Failure α :=
  match m.value r, r with
  | some a, _ => .ok a
  | none, .err n => .error (.radio n)
  | none, _ => .error (.core .parse)

/-- The method returns at the response: it is not of a variant that the method does not expect, and
the radio for microcontrollers has room for a password in it. -/
def Fits (m : SharedMethod α) (r : Response) : Prop :=
  m.out r ≠ .error (.core .parse) ∧ ∀ s, r = .cpin s → s.utf8ByteSize ≤ 8

/-- The closure of a method: it returns at every response that fits. What it does with the others is
left open. -/
def Handles {ε : Type} (m : SharedMethod α) (error : Failure → ε)
    (want : Response → Option (Except ε α)) : Prop :=
  ∀ r, m.Fits r → want r = some ((m.out r).mapError error)

/-- `Duration` of the blocking method, in nanoseconds. -/
def stdTimeout : SharedMethod α → Nat
  | factoryReset => Std.factoryResetTimeout
  | _ => Std.defaultTimeout

/-- `Duration` of the method for microcontrollers, in ticks. -/
def embassyTimeout (tickHz : Nat) : SharedMethod α → Nat
  | factoryReset => Embassy.factoryResetTimeout tickHz
  | _ => Embassy.defaultTimeout tickHz

end SharedMethod

/-! ### Responses -/

/-- A common failure of the blocking radio. -/
def Failure.std : Failure → Std.Error
  | core e => .core e
  | radio code => .radio code

/-- A common failure of the async radio. -/
def Failure.tokio : Failure → Tokio.Error
  | core e => .core e
  | radio code => .radio code

/-- A common failure of the radio for microcontrollers. -/
def Failure.embassy {ε : Type} : Failure → Embassy.Error ε
  | core e => .core e
  | radio code => .radio code

namespace SharedMethod

variable {α : Type} (m : SharedMethod α)

/-- Every response that the command expects fits the method. -/
theorem fits_of_expects {r : Response} (hr : m.command.Expects r) : m.Fits r := by
  obtain ⟨hanswered, hlength⟩ := hr
  refine ⟨?_, hlength⟩
  intro hparse
  cases m <;> cases r <;> first | (cases hparse; done) | cases hanswered

theorem std_eq [Target] (radio : Std.Radio) : ∃ want,
    m.std radio = radio.command m.command m.stdTimeout want ∧
      m.Handles Failure.std want := by
  cases m
  all_goals
    refine ⟨_, rfl, ?_⟩
    rintro r ⟨hfits, -⟩
    cases r <;> first | rfl | exact absurd rfl hfits

theorem tokio_eq [Target] (d : Driver) (port : Tokio.Port) : ∃ value,
    m.tokio d port = Tokio.method d port m.command value ∧
      ∀ r, Tokio.expect value (.ok r) = (m.out r).mapError Failure.tokio := by
  cases m
  all_goals
    refine ⟨_, rfl, ?_⟩
    intro r
    cases r <;> rfl

theorem embassy_eq [Target] {ε : Type} (radio : Embassy.Radio ε) (tickHz : Nat) : ∃ want,
    m.embassy radio tickHz = radio.command m.command (m.embassyTimeout tickHz) want ∧
      m.Handles Failure.embassy want := by
  cases m
  all_goals
    refine ⟨_, rfl, ?_⟩
    rintro r ⟨hfits, hlength⟩
    cases r <;> first | rfl | exact absurd rfl hfits | exact if_pos (hlength _ rfl)

end SharedMethod

/-! ### Ports that deliver -/

/-- The port delivers the chunks before the deadline. -/
structure Port.Delivers {ω ρ : Type} (ok : Chunk → ρ) (deadline : Nat) (chunks : List Chunk)
    (port : Port ω ρ) : Prop where
  reads : port.reads = chunks.map ok
  length_le : chunks.length ≤ port.clock.length
  inTime : ∀ now ∈ port.clock, now < deadline

/-- A call with this port is not disturbed: the write succeeds, and the port delivers the chunks
before the deadline. -/
structure Port.Smooth {ω ρ : Type} (ok : Chunk → ρ) (timeout : Nat) (chunks : List Chunk)
    (port : Port ω ρ) : Prop where
  write : ∃ writes, port.writes = .ok () :: writes
  delivers : ∃ now clock, port.clock = now :: clock ∧
    Port.Delivers ok (now + timeout) chunks { port with clock }

theorem Port.Delivers.cons_inv {ω ρ : Type} {ok : Chunk → ρ} {deadline : Nat} {chunk : Chunk}
    {chunks : List Chunk} {port : Port ω ρ} (h : Delivers ok deadline (chunk :: chunks) port) :
    ∃ now clock, port = ⟨port.writes, ok chunk :: chunks.map ok, now :: clock⟩ ∧ now < deadline ∧
      chunks.length ≤ clock.length ∧ ∀ t ∈ clock, t < deadline := by
  obtain ⟨writes, reads, clock⟩ := port
  obtain ⟨hreads, hlength, htime⟩ := h
  obtain rfl : reads = ok chunk :: chunks.map ok := hreads
  cases clock with
  | nil => cases hlength
  | cons now clock =>
    refine ⟨now, clock, rfl, htime now List.mem_cons_self, Nat.le_of_succ_le_succ hlength, ?_⟩
    intro t ht
    exact htime t (List.mem_cons_of_mem now ht)

/-- A turn with the deadline pushes the chunk that it reads, and an overflow is an error. -/
structure Turn.Pushes {ω ρ ε : Type} (turn : Turn ω ρ ε) (ok : Chunk → ρ) (error : Failure → ε)
    (deadline : Nat) : Prop where
  blocked : ∀ d writes {clock}, (∀ t ∈ clock, t < deadline) →
    turn.run d ⟨writes, [], clock⟩ = .error .blocked
  push : ∀ {d d' : Driver} {chunk : Chunk} {n} (writes reads clock) {now},
    d.pushRx chunk = .ok (.ok n, d') → now < deadline →
    turn.run d ⟨writes, ok chunk :: reads, now :: clock⟩ = .ok (.ok (), d', ⟨writes, reads, clock⟩)
  overflow : ∀ {d d' : Driver} {chunk : Chunk} {e} (writes reads clock) {now},
    d.pushRx chunk = .ok (.error e, d') → now < deadline →
    ∃ clock', turn.run d ⟨writes, ok chunk :: reads, now :: clock⟩ =
      .ok (.error (error (.core e)), d', ⟨writes, reads, clock'⟩)

theorem Turn.Pushes.feeds {ω ρ ε : Type} {turn : Turn ω ρ ε} {ok : Chunk → ρ} {error : Failure → ε}
    {deadline : Nat} (hturn : turn.Pushes ok error deadline) :
    turn.Feeds error False (Port.Delivers ok deadline) where
  length h := by rw [h.reads, List.length_map]
  writes h _ := ⟨h.reads, h.length_le, h.inTime⟩
  blocked := by
    intro port h d
    obtain ⟨writes, reads, clock⟩ := port
    obtain ⟨hreads, -, htime⟩ := h
    obtain rfl : reads = [] := hreads
    exact hturn.blocked d writes htime
  push := by
    intro chunk chunks port h d d' n hpush
    obtain ⟨now, clock, hport, hnow, hlength, htime⟩ := h.cons_inv
    rw [hport]
    exact ⟨_, hturn.push _ _ _ hpush hnow, rfl, hlength, htime⟩
  overflow := by
    intro chunk chunks port h d d' e hpush _
    obtain ⟨now, clock, hport, hnow, -⟩ := h.cons_inv
    rw [hport]
    obtain ⟨clock', hrun⟩ := hturn.overflow port.writes (chunks.map ok) clock hpush hnow
    exact ⟨_, hrun, List.length_map _⟩

/-! ### A submitted command -/

section Submit

variable [Target] {δ ω ρ ε α : Type} {turn : δ → Turn ω ρ ε}
  {start : Port ω ρ → Except Halt (δ × Port ω ρ)} {io : ω → ε} {core : Error → ε}
  {error : Failure → ε} {lossy : Prop} {R : List Chunk → Port ω ρ → Prop} {cmd : Command}
  {want : Response → Option (Except ε α)} {out : Response → Except Failure α} {d : Driver}
  {chunks : List Chunk} {port port' : Port ω ρ} {deadline : δ}

/-- **A submitted command is a `transact`**, whatever the crate. -/
theorem submitThenPump_eq_transact (hd : Reachable d) (hidle : d.state = .idle)
    (hcore : ∀ e, core e = error (.core e)) (hturn : (turn deadline).Feeds error lossy R)
    (hwant : ∀ r, cmd.Expects r → want r = some ((out r).mapError error))
    (hstart : start port = .ok (deadline, port')) (hreads : port'.reads = port.reads)
    (hport : R chunks port') (hwrite : ∃ writes, port'.writes = .ok () :: writes)
    (hlossy : lossy → ∀ o, transact cmd out d chunks = .ok o →
      o.result ≠ .error (.core .rxOverflow)) :
    (submitThenPump turn start io core cmd want d port).map Pumped.outcome =
      (transact cmd out d chunks).map (Outcome.mapError error) := by
  rcases Nat.lt_or_ge txBuf (d.tx.len + (wire cmd).length) with hfull | hfit
  · have hsubmit := Driver.submit_overflow hidle hfull
    rw [submitThenPump_refused hsubmit, transact, hsubmit]
    show Except.ok (Outcome.mk (.error (core _)) _ _ port.reads.length) = _
    rw [hcore, ← hreads, hturn.length hport]
    rfl
  · rw [submitThenPump_accepted (Driver.submit_accept hidle hfit) hstart]
    exact pump_accept_eq_exchange hd hidle hfit hturn hwant hport hwrite hlossy

/-- A command method with a deadline, when its call is not disturbed. -/
theorem submitThenPump_of_smooth {turn : Nat → Turn ω ρ ε} {ok : Chunk → ρ} {timeout : Nat}
    (hd : Reachable d) (hidle : d.state = .idle) (hcore : ∀ e, core e = error (.core e))
    (hturn : ∀ t, (turn t).Pushes ok error t)
    (hwant : ∀ r, cmd.Expects r → want r = some ((out r).mapError error))
    (hport : Port.Smooth ok timeout chunks port) :
    (submitThenPump turn (deadlineAfter timeout) io core cmd want d port).map Pumped.outcome =
      (transact cmd out d chunks).map (Outcome.mapError error) := by
  obtain ⟨hwrite, now, clock, hclock, hdelivers⟩ := hport
  exact submitThenPump_eq_transact hd hidle hcore (hturn (now + timeout)).feeds hwant
    (deadlineAfter_of_clock hclock timeout) rfl hdelivers hwrite False.elim

end Submit

/-! ### The blocking radio -/

namespace Std

theorem turn_pushes (deadline : Nat) : (turn deadline).Pushes .ok Failure.std deadline where
  blocked _ _ _ _ := rfl
  push writes reads clock now hpush hnow := by
    refine (readOnce_of_push hpush).trans ?_
    rw [if_neg (Nat.not_le.mpr hnow)]
  overflow writes reads clock now hpush _ := ⟨now :: clock, readOnce_of_overflow hpush⟩

/-- What the caller sees of a call. -/
def outcome {α : Type} (call : Except Error α × Radio) : Outcome Error α :=
  ⟨call.1, call.2.events, call.2.driver, call.2.port.reads.length⟩

theorem map_outcome_command [Target] {α : Type} (radio : Radio) (cmd : Command) (timeout : Nat)
    (want : Response → Option (Except Error α)) :
    (radio.command cmd timeout want).map outcome =
      ((submitThenPump turn (deadlineAfter timeout) .io .core cmd want radio.driver
        radio.port).map Pumped.outcome).map (Outcome.after radio.events) := by
  rw [Radio.command_eq, Except.map_map, Except.map_map]
  rfl

end Std

/-! ### The radio for microcontrollers -/

namespace Embassy

theorem turn_pushes {ε : Type} (deadline : Nat) :
    (turn (ε := ε) deadline).Pushes .ok Failure.embassy deadline where
  blocked d writes clock htime := by
    cases clock with
    | nil => rfl
    | cons now clock =>
      show (if deadline - now = 0 then _ else _) = _
      rw [if_neg (Nat.sub_ne_zero_of_lt (htime now List.mem_cons_self))]
      rfl
  push writes reads clock now hpush hnow := by
    show (if deadline - now = 0 then _ else onDriver (Driver.pushRx _ _) >>= _) = _
    rw [if_neg (Nat.sub_ne_zero_of_lt hnow), hpush]
    rfl
  overflow writes reads clock now hpush hnow := by
    refine ⟨clock, ?_⟩
    show (if deadline - now = 0 then _ else onDriver (Driver.pushRx _ _) >>= _) = _
    rw [if_neg (Nat.sub_ne_zero_of_lt hnow), hpush]
    rfl

/-- What the caller sees of a call. -/
def outcome {ε α : Type} (call : Except (Error ε) α × Radio ε) : Outcome (Error ε) α :=
  ⟨call.1, call.2.log, call.2.driver, call.2.uart.reads.length⟩

theorem map_outcome_command [Target] {ε α : Type} (radio : Radio ε) (cmd : Command) (timeout : Nat)
    (want : Response → Option (Except (Error ε) α)) :
    (radio.command cmd timeout want).map outcome =
      ((submitThenPump turn (deadlineAfter timeout) .io .core cmd want radio.driver
        radio.uart).map Pumped.outcome).map (Outcome.after radio.log) := by
  rw [Radio.command_eq, Except.map_map, Except.map_map]
  rfl

end Embassy

/-! ### The async radio -/

namespace Tokio

/-- The port delivers the chunks before the deadline. A read of no bytes would end the job. -/
structure Delivers (chunks : List Chunk) (port : Port) : Prop where
  reads : port.reads = chunks.map .ok
  nonempty : ∀ chunk ∈ chunks, chunk.val ≠ []

/-- A job with this port is not disturbed: the write succeeds, and the port delivers the chunks
before the deadline. -/
structure Smooth (chunks : List Chunk) (port : Port) : Prop where
  write : ∃ writes, port.writes = .ok () :: writes
  reads : port.reads = chunks.map .ok

theorem readOnce_of_push {d d' : Driver} {chunk : Chunk} {writes : List (Except ErrorKind Unit)}
    {reads : List Read} {clock : List Nat} {n : Nat} (hpush : d.pushRx chunk = .ok (.ok n, d'))
    (hchunk : chunk.val ≠ []) :
    readOnce d ⟨writes, .ok chunk :: reads, clock⟩ = .ok (.ok (), d', ⟨writes, reads, clock⟩) := by
  obtain ⟨_ | ⟨b, bytes⟩, hlength⟩ := chunk
  · exact absurd rfl hchunk
  · show onDriver (d.pushRx (b :: bytes)) >>= _ = _
    rw [hpush]
    rfl

/-- An overflow of `rx` would go unnoticed. -/
theorem turn_feeds : turn.Feeds Failure.tokio True Delivers where
  length h := by rw [h.reads, List.length_map]
  writes h _ := ⟨h.reads, h.nonempty⟩
  blocked := by
    intro port h d
    show readOnce d port = _
    rw [readOnce, h.reads]
    rfl
  push := by
    intro chunk chunks port h d d' n hpush
    obtain ⟨writes, reads, clock⟩ := port
    obtain ⟨hreads, hne⟩ := h
    obtain rfl : reads = .ok chunk :: chunks.map .ok := hreads
    refine ⟨_, readOnce_of_push hpush (hne chunk List.mem_cons_self), rfl, ?_⟩
    intro c hc
    exact hne c (List.mem_cons_of_mem chunk hc)
  overflow := by
    intro chunk chunks port h d d' e hpush hseen
    exact absurd trivial hseen

/-- The outcome of a method, from the outcome of its job. -/
def replied {α : Type} (value : Response → Option α) (o : Outcome Error OwnedResponse) :
    Outcome Error α :=
  { o with result := expect value o.result }

section

variable [Target] {α : Type} {cmd : OwnedCommand} {d : Driver} (hd : Reachable d)
  (hidle : d.state = .idle) {chunks : List Chunk} (hchunks : ∀ chunk ∈ chunks, chunk.val ≠ [])
  {port : Port} (hport : Smooth chunks port)

include hd hidle hchunks hport

theorem processJob_eq_transact
    (hfits : ∀ o, transact cmd .ok d chunks = .ok o → o.result ≠ .error (.core .rxOverflow)) :
    (processJob d port cmd).map Pumped.outcome =
      (transact cmd .ok d chunks).map (Outcome.mapError Failure.tokio) := by
  rw [processJob_eq]
  have hdelivers : Delivers chunks port := ⟨hport.reads, hchunks⟩
  exact submitThenPump_eq_transact hd hidle (fun _ => rfl) turn_feeds (fun _ _ => rfl) rfl rfl
    hdelivers hport.write fun _ => hfits

/-- A method of the handle: the job, and the `match` on its reply. -/
theorem method_eq_transact {value : Response → Option α} {out : Response → Except Failure α}
    (hvalue : ∀ r, expect value (.ok r) = (out r).mapError Failure.tokio)
    (hfits : ∀ o, transact cmd out d chunks = .ok o → o.result ≠ .error (.core .rxOverflow)) :
    (method d port cmd value).map Pumped.outcome =
      (transact cmd out d chunks).map (Outcome.mapError Failure.tokio) := by
  have hfits' (o : Outcome Failure OwnedResponse) (ho : transact cmd .ok d chunks = .ok o) :
      o.result ≠ .error (.core .rxOverflow) := by
    intro hresult
    refine hfits (o.bind out) ?_ ?_
    · rw [transact_eq_bind, ho]
      rfl
    · rw [Outcome.bind, hresult]
      rfl
  have hjob := processJob_eq_transact hd hidle hchunks hport hfits'
  have hreply (o : Outcome Failure OwnedResponse) :
      replied value (o.mapError Failure.tokio) = (o.bind out).mapError Failure.tokio := by
    obtain ⟨e | r, events, d, left⟩ := o
    · rfl
    · exact congrArg (Outcome.mk · events d left) (hvalue r)
  calc (method d port cmd value).map Pumped.outcome
      = ((processJob d port cmd).map Pumped.outcome).map (replied value) := by
        unfold method
        cases processJob d port cmd <;> rfl
    _ = ((transact cmd .ok d chunks).map (Outcome.mapError Failure.tokio)).map
          (replied value) := by rw [hjob]
    _ = (transact cmd out d chunks).map (Outcome.mapError Failure.tokio) := by
        rw [transact_eq_bind cmd out]
        rcases transact cmd (.ok : Response → Except Failure Response) d chunks with halt | o
        · rfl
        · exact congrArg Except.ok (hreply o)

end

end Tokio

/-! ### The three of them -/

section Agree

variable [Target] {ε α : Type} (m : SharedMethod α) {d : Driver} {chunks : List Chunk}

/-- **The three radios agree.** A command method that they share, called with the same idle driver
and handed the same chunks, returns the same after the same number of reads, hands on the same
events, and leaves the same driver; or it is still waiting when the chunks are used up. What the
closures do with a response that does not fit the method does not matter, and the method does not
return `Error::Parse`. -/
theorem radios_agree (hd : Reachable d) (hidle : d.state = .idle)
    (hchunks : ∀ chunk ∈ chunks, chunk.val ≠ [])
    {radio : Std.Radio} (hradio : radio.driver = d)
    (hstd : Port.Smooth .ok m.stdTimeout chunks radio.port)
    {port : Tokio.Port} (htokio : Tokio.Smooth chunks port)
    {tickHz : Nat} {radio' : Embassy.Radio ε} (hradio' : radio'.driver = d)
    (hembassy : Port.Smooth .ok (m.embassyTimeout tickHz) chunks radio'.uart)
    (hfits : ∀ r radio₁, m.std radio = .ok (r, radio₁) → r ≠ .error (.core .rxOverflow)) :
    ∃ call : Except Halt (Outcome Failure α),
      (m.std radio).map Std.outcome =
        (call.map (Outcome.mapError Failure.std)).map (Outcome.after radio.events) ∧
      (m.tokio d port).map Pumped.outcome = call.map (Outcome.mapError Failure.tokio) ∧
      (m.embassy radio' tickHz).map Embassy.outcome =
        (call.map (Outcome.mapError Failure.embassy)).map (Outcome.after radio'.log) ∧
      (∀ o, call = .ok o → o.result ≠ .error (.core .parse)) ∧
      (∀ want, m.Handles Failure.std want →
        (radio.command m.command m.stdTimeout want).map Std.outcome =
          (m.std radio).map Std.outcome) ∧
      ∀ want, m.Handles Failure.embassy want →
        (radio'.command m.command (m.embassyTimeout tickHz) want).map Embassy.outcome =
          (m.embassy radio' tickHz).map Embassy.outcome := by
  subst hradio
  -- each of the three is the same `transact`, with the error of its crate
  have hstd' (want : Response → Option (Except Std.Error α)) (hwant : m.Handles Failure.std want) :
      (radio.command m.command m.stdTimeout want).map Std.outcome =
        ((transact m.command m.out radio.driver chunks).map (Outcome.mapError Failure.std)).map
          (Outcome.after radio.events) := by
    rw [Std.map_outcome_command]
    exact congrArg (Except.map _) (submitThenPump_of_smooth hd hidle (fun _ => rfl)
      Std.turn_pushes (fun r hr => hwant r (m.fits_of_expects hr)) hstd)
  have hembassy' (want : Response → Option (Except (Embassy.Error ε) α))
      (hwant : m.Handles Failure.embassy want) :
      (radio'.command m.command (m.embassyTimeout tickHz) want).map Embassy.outcome =
        ((transact m.command m.out radio.driver chunks).map (Outcome.mapError Failure.embassy)).map
          (Outcome.after radio'.log) := by
    rw [Embassy.map_outcome_command, hradio']
    exact congrArg (Except.map _) (submitThenPump_of_smooth hd hidle (fun _ => rfl)
      Embassy.turn_pushes (fun r hr => hwant r (m.fits_of_expects hr)) hembassy)
  obtain ⟨wantStd, hcall, hwantStd⟩ := m.std_eq radio
  obtain ⟨wantEmbassy, hcall', hwantEmbassy⟩ := m.embassy_eq radio' tickHz
  obtain ⟨value, hmethod, hvalue⟩ := m.tokio_eq radio.driver port
  have hstdCall := hcall ▸ hstd' wantStd hwantStd
  have hembassyCall := hcall' ▸ hembassy' wantEmbassy hwantEmbassy
  refine ⟨transact m.command m.out radio.driver chunks, hstdCall, ?_, hembassyCall, ?_, ?_, ?_⟩
  · -- the async radio does not report an overflow, and the blocking one has not met one
    rw [hmethod]
    apply Tokio.method_eq_transact hd hidle hchunks htokio hvalue
    intro o ho hresult
    rw [ho] at hstdCall
    obtain ⟨⟨r, radio₁⟩, hr, hout⟩ := Except.map_eq_ok.mp hstdCall
    apply hfits r radio₁ hr
    have hresult' : r = o.result.mapError Failure.std := congrArg Outcome.result hout
    rw [hresult', hresult]
    rfl
  · -- the reply is of the kind that the command expects
    intro o ho
    rcases transact_result hd hidle ho with ⟨r, hr, hresult⟩ | hresult | hresult
    · rw [hresult]
      exact (m.fits_of_expects hr).1
    · rw [hresult]
      nofun
    · rw [hresult]
      nofun
  · -- and what another closure does with the other responses does not matter
    intro want hwant
    exact (hstd' want hwant).trans hstdCall.symm
  · intro want hwant
    exact (hembassy' want hwant).trans hembassyCall.symm

end Agree

section

attribute [local instance] Target.host

/-- A ping that is answered by one chunk returns with each of the three. -/
theorem radios_agree_ping : ∃ chunk : Chunk, ∃ o : Outcome Failure Unit,
    (SharedMethod.ping.std ⟨.new, ⟨[.ok ()], [.ok chunk], [0, 1]⟩, []⟩).map Std.outcome =
      .ok (o.mapError Failure.std) ∧
    (SharedMethod.ping.tokio .new ⟨[.ok ()], [.ok chunk], []⟩).map Pumped.outcome =
      .ok (o.mapError Failure.tokio) ∧
    (SharedMethod.ping.embassy (ε := Unit) ⟨.new, ⟨[.ok ()], [.ok chunk], [0, 1]⟩, []⟩ 1000).map
      Embassy.outcome = .ok (o.mapError Failure.embassy) := by
  let chunk : Chunk := ⟨utf8 "+OK\r\n", by decide⟩
  have hping : SharedMethod.ping.std ⟨.new, ⟨[.ok ()], [.ok chunk], [0, 1]⟩, []⟩ =
      .ok (.ok (), ⟨Driver.new.copyLine (utf8 "+OK"), ⟨[], [], []⟩, []⟩) := by
    decide +kernel
  have hfits (r) (radio : Std.Radio)
      (h : SharedMethod.ping.std ⟨.new, ⟨[.ok ()], [.ok chunk], [0, 1]⟩, []⟩ = .ok (r, radio)) :
      r ≠ .error (.core .rxOverflow) := by
    cases hping.symm.trans h
    nofun
  have hstd : Port.Smooth .ok Std.defaultTimeout [chunk]
      (⟨[.ok ()], [.ok chunk], [0, 1]⟩ : Std.Port) :=
    ⟨⟨[], rfl⟩, 0, [1], rfl, rfl, by decide, by decide⟩
  have htokio : Tokio.Smooth [chunk] ⟨[.ok ()], [.ok chunk], []⟩ := ⟨⟨[], rfl⟩, rfl⟩
  have hembassy : Port.Smooth .ok (Embassy.defaultTimeout 1000) [chunk]
      (⟨[.ok ()], [.ok chunk], [0, 1]⟩ : Embassy.Port Unit) :=
    ⟨⟨[], rfl⟩, 0, [1], rfl, rfl, by decide, by decide⟩
  obtain ⟨call, hstdCall, htokioCall, hembassyCall, -⟩ :=
    @radios_agree _ Unit Unit .ping .new [chunk] ⟨[], [], rfl⟩ rfl (by decide)
      ⟨.new, ⟨[.ok ()], [.ok chunk], [0, 1]⟩, []⟩ rfl hstd ⟨[.ok ()], [.ok chunk], []⟩ htokio 1000
      ⟨.new, ⟨[.ok ()], [.ok chunk], [0, 1]⟩, []⟩ rfl hembassy hfits
  rcases call with halt | o
  · rw [hping] at hstdCall
    cases hstdCall
  · exact ⟨chunk, o, hstdCall, htokioCall, hembassyCall⟩

end

end Rylr998
