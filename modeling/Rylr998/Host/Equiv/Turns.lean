import Rylr998.Host.Equiv.Calls

/-!
# The course of a call

`LoopAt` says that a call comes to a loop over `Driver::poll`, and `TurnAt` that it comes to the
turn behind one; both tell which events have come up so far. A call that returns does so from such
a loop or from such a turn (`exists_last_loop`), and a call that comes to one goes on from there
(`pump_of_loopAt`).
-/

namespace Rylr998

open Framing

/-! ### The end of a loop -/

section Loop

variable [Target] {ω α : Type} {want : Response → Option α} {d : Driver}
  {writes : List (Except ω Unit)} {r : Looped ω α}

/-- The loop of a driver that has nothing to send does not fail, and a response that ends it leaves
a driver that waits for nothing. -/
theorem pollLoop_end_of_sent (hd : d.Sent) (h : pollLoop want d writes = .ok r) :
    (∀ out, r.stop = .wanted out → r.driver.mode = .idle ∧ ∃ resp, want resp = some out) ∧
      ∀ e, r.stop ≠ .failed e := by
  refine pollLoop_induction (P := fun _ r => (∀ out, r.stop = .wanted out →
    r.driver.mode = .idle ∧ ∃ resp, want resp = some out) ∧ ∀ e, r.stop ≠ .failed e)
    ?_ ?_ ?_ ?_ hd h
  · exact fun _ _ => ⟨nofun, nofun⟩
  · exact fun _ _ ih => ih
  · intro d d' resp out hn _ hout
    obtain ⟨skipped, -, ⟨hnone, -⟩ | ⟨line, -, hr, -⟩⟩ := LineMachine.next_inv hn
    · cases hnone
    · have hidle := (inFlight_of_react hr (Or.inr ⟨resp, rfl⟩)).1
      refine ⟨fun out' hstop => ?_, nofun⟩
      cases hstop
      exact ⟨hidle, resp, hout⟩
  · exact fun _ _ _ ih => ih

/-- A loop that ends at `Poll::Idle` or at a response has sent everything; one that fails has sent
nothing and come to no event. -/
theorem pollLoop_end (h : pollLoop want d writes = .ok r) :
    (r.stop = .idle → r.driver.Sent) ∧
      (∀ out, r.stop = .wanted out →
        r.driver.Sent ∧ r.driver.mode = .idle ∧ ∃ resp, want resp = some out) ∧
      ∀ e, r.stop = .failed e →
        d.txInFlight < d.tx.len ∧ writes = .error e :: r.writes ∧ r.events = [] := by
  have hsent {d : Driver} {writes : List (Except ω Unit)} (hd : d.Sent)
      (h : pollLoop want d writes = .ok r) : (r.stop = .idle → r.driver.Sent) ∧
        (∀ out, r.stop = .wanted out →
          r.driver.Sent ∧ r.driver.mode = .idle ∧ ∃ resp, want resp = some out) ∧
        ∀ e, r.stop ≠ .failed e := by
    obtain ⟨hwanted, hfailed⟩ := pollLoop_end_of_sent hd h
    have hr := (pollLoop_sameTx hd h).1.sent hd
    exact ⟨fun _ => hr, fun out hout => ⟨hr, hwanted out hout⟩, hfailed⟩
  rcases Nat.lt_or_ge d.txInFlight d.tx.len with htx | htx
  · rw [pollLoop_of_needTx htx] at h
    rcases writes with _ | ⟨e | ⟨⟩, writes⟩
    · cases h
    · cases h
      refine ⟨nofun, nofun, fun e' he => ?_⟩
      cases he
      exact ⟨htx, rfl, rfl⟩
    · obtain ⟨hidle, hwanted, hfailed⟩ := hsent d.flushed_sent.1 h
      exact ⟨hidle, hwanted, fun e he => absurd he (hfailed e)⟩
  · obtain ⟨hidle, hwanted, hfailed⟩ := hsent htx h
    exact ⟨hidle, hwanted, fun e he => absurd he (hfailed e)⟩

end Loop

/-! ### Loops and turns -/

section

variable [Target] {ω ρ ε α : Type}

/-- The call comes to a loop over `Driver::poll`, with the driver `d'` and the answers `port'`; the
`events` have come up before. -/
inductive LoopAt (turn : Turn ω ρ ε) (want : Response → Option (Except ε α)) :
    Driver → Port ω ρ → List Event → Driver → Port ω ρ → Prop
  | first {d : Driver} {port : Port ω ρ} : LoopAt turn want d port [] d port
  | later {d d₁ d₂ d' : Driver} {port port₂ port' : Port ω ρ} {writes : List (Except ω Unit)}
    {events events' : List Event} :
    pollLoop want d port.writes = .ok ⟨.idle, events, d₁, writes⟩ →
      turn.run d₁ { port with writes } = .ok (.ok (), d₂, port₂) →
      LoopAt turn want d₂ port₂ events' d' port' →
      LoopAt turn want d port (events ++ events') d' port'

/-- The call comes to a turn, with the driver `d'` and the answers `port'`; the `events` have come
up before. -/
def TurnAt (turn : Turn ω ρ ε) (want : Response → Option (Except ε α)) (d : Driver)
    (port : Port ω ρ) (events : List Event) (d' : Driver) (port' : Port ω ρ) : Prop :=
  ∃ events₁ d₁ port₁ events₂ writes, LoopAt turn want d port events₁ d₁ port₁ ∧
    pollLoop want d₁ port₁.writes = .ok ⟨.idle, events₂, d', writes⟩ ∧
      events = events₁ ++ events₂ ∧ port' = { port₁ with writes }

variable {turn : Turn ω ρ ε} {io : ω → ε} {want : Response → Option (Except ε α)}
  {d d₁ d' : Driver} {port port₁ port' : Port ω ρ} {events : List Event}

/-- A call that comes to a loop goes on as one that begins there. -/
theorem pump_of_loopAt (h : LoopAt turn want d port events d₁ port₁) :
    pump turn io want d port =
      (pump turn io want d₁ port₁).map fun p => { p with events := events ++ p.events } := by
  induction h with
  | first => cases pump turn io want _ _ <;> rfl
  | @later d _ _ d₁ port _ port₁ _ events events' hloop hturn _ ih =>
    rw [pump_of_turn hloop hturn, ih]
    cases pump turn io want d₁ port₁ with
    | error halt => rfl
    | ok p => simp [Except.map]

/-- A call that comes to a turn and gives up in it. -/
theorem pump_of_turnAt (h : TurnAt turn want d port events d₁ port₁) {e : ε}
    (hturn : turn.run d₁ port₁ = .ok (.error e, d', port')) :
    pump turn io want d port = .ok ⟨.error e, events, d', port'⟩ := by
  obtain ⟨events₁, d₂, port₂, events₂, writes, hat, hloop, rfl, rfl⟩ := h
  rw [pump_of_loopAt hat, pump_of_giveUp hloop hturn]
  rfl

theorem TurnAt.sent (h : TurnAt turn want d port events d₁ port₁) : d₁.Sent := by
  obtain ⟨_, _, _, _, _, -, hloop, -, -⟩ := h
  exact (pollLoop_end hloop).1 rfl

/-- A call returns from the loop that it comes to last, or from the turn behind that. -/
theorem exists_last_loop {p : Pumped ω ρ ε α} (h : pump turn io want d port = .ok p) :
    ∃ events₁ d₁ port₁ r, LoopAt turn want d port events₁ d₁ port₁ ∧
      pollLoop want d₁ port₁.writes = .ok r ∧ p.events = events₁ ++ r.events ∧
      ((∃ out, r.stop = .wanted out ∧ p.result = out ∧ p.driver = r.driver) ∨
        (∃ e, r.stop = .failed e ∧ p.result = .error (io e) ∧ p.driver = r.driver) ∨
        (r.stop = .idle ∧ ∃ e, p.result = .error e ∧
          turn.run r.driver { port₁ with writes := r.writes } =
            .ok (.error e, p.driver, p.port))) := by
  induction hlen : port.reads.length using Nat.strong_induction_on generalizing d port p with
  | _ n ih =>
  subst hlen
  obtain ⟨r, hloop, hcase⟩ := pump_inv h
  rcases hcase with ⟨out, hstop, rfl⟩ | ⟨e, hstop, rfl⟩ | ⟨hstop, e, d', port', hturn, rfl⟩ |
    ⟨hstop, d', port', p', hturn, hrec, rfl⟩
  · exact ⟨[], d, port, r, .first, hloop, rfl, Or.inl ⟨out, hstop, rfl, rfl⟩⟩
  · exact ⟨[], d, port, r, .first, hloop, rfl, Or.inr (Or.inl ⟨e, hstop, rfl, rfl⟩)⟩
  · exact ⟨[], d, port, r, .first, hloop, rfl, Or.inr (Or.inr ⟨hstop, e, rfl, hturn⟩)⟩
  · obtain ⟨stop, events, d₁, writes⟩ := r
    obtain rfl : stop = .idle := hstop
    have hlt := turn.reads_lt hturn
    obtain ⟨events₁, d₂, port₂, r', hat, hloop', hevents, hends⟩ := ih _ hlt hrec rfl
    refine ⟨_, d₂, port₂, r', .later hloop hturn hat, hloop', ?_, hends⟩
    rw [hevents, List.append_assoc]

end

/-! ### The way to a loop of the blocking radio -/

namespace Std

section

variable [Target] {α : Type} {deadline : Nat} {want : Response → Option (Except Error α)}
  {d d' : Driver} {port port' : Port} {events : List Event}

/-- On the way to a loop every look at the clock is before the deadline. -/
theorem clock_of_loopAt (h : LoopAt (turn deadline) want d port events d' port') :
    ∃ seen, port.clock = seen ++ port'.clock ∧ ∀ now ∈ seen, now < deadline := by
  induction h with
  | first => exact ⟨[], rfl, nofun⟩
  | later _ hturn _ ih =>
    obtain ⟨seen, hseen, hlt⟩ := ih
    cases turn_spec hturn with
    | @delivered _ _ _ now clock _ _ _ _ hclock _ hr =>
      have hnow : now < deadline := by
        by_contra hle
        rw [if_pos (Nat.not_lt.mp hle)] at hr
        cases hr
      refine ⟨now :: seen, ?_, List.forall_mem_cons.mpr ⟨hnow, hlt⟩⟩
      rw [List.cons_append, ← hseen]
      exact hclock

theorem clock_of_turnAt (h : TurnAt (turn deadline) want d port events d' port') :
    ∃ seen, port.clock = seen ++ port'.clock ∧ ∀ now ∈ seen, now < deadline := by
  obtain ⟨_, _, _, _, _, hat, -, -, rfl⟩ := h
  have hclock := clock_of_loopAt hat
  exact hclock

/-- Every loop but the first begins with nothing to send. -/
theorem sent_of_loopAt (h : LoopAt (turn deadline) want d port events d' port') :
    d' = d ∧ events = [] ∨ d'.Sent := by
  induction h with
  | first => exact Or.inl ⟨rfl, rfl⟩
  | later hloop hturn _ ih =>
    have hsent := ((turn_arrives deadline).same hturn).2.sent ((pollLoop_end hloop).1 rfl)
    rcases ih with ⟨rfl, -⟩ | ih
    · exact Or.inr hsent
    · exact Or.inr ih

end

end Std

end Rylr998
