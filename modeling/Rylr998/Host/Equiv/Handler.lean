import Rylr998.Host.Equiv.Answers
import Rylr998.Host.Equiv.AtOnce

/-!
# The handler of `next_event`

The calls of the driver that `Radio::next_event` of `rylr998_embassy` makes
(`Embassy.Radio.Listens`), and what becomes of the events that they return: the handler is called
with each of them, in order, until it returns a value (`heed`). So none is left when the call
returns, and the value is the one that the call returns (`Embassy.next_event_heeds`).
-/

namespace Rylr998

/-- Call the handler with one event after the other until it returns a value: the value, what the
handler has captured then, and the events that are left. -/
def heed {α σ β : Type} (handler : σ → α → Option β × σ) (s : σ) : List α → Option β × σ × List α
  | [] => (none, s, [])
  | e :: es =>
    match handler s e with
    | (some r, s) => (some r, s, es)
    | (none, s) => heed handler s es

section

variable {α σ β : Type} {handler : σ → α → Option β × σ} {s s₁ s' : σ} {e : α}

theorem heed_of_some {r : β} (h : handler s e = (some r, s₁)) (es : List α) :
    heed handler s (e :: es) = (some r, s₁, es) := by
  rw [heed, h]

theorem heed_of_none (h : handler s e = (none, s₁)) (es : List α) :
    heed handler s (e :: es) = heed handler s₁ es := by
  rw [heed, h]

/-- The handler goes on where it has not returned a value. -/
theorem heed_append {es : List α} (h : heed handler s es = (none, s', [])) (es' : List α) :
    heed handler s (es ++ es') = heed handler s' es' := by
  induction es generalizing s with
  | nil =>
    cases h
    rfl
  | cons e es ih =>
    rw [List.cons_append]
    rcases hone : handler s e with ⟨_ | r, s₁⟩
    · rw [heed_of_none hone] at h ⊢
      exact ih h
    · rw [heed_of_some hone] at h
      cases h

end

namespace Embassy

/-! ### The calls of `next_event` -/

section

variable [Target] {ε σ β : Type} (handler : σ → Event → Option β × σ)

/-- The loop over `Driver::poll` makes the calls and ends. -/
inductive LoopMakes : σ → Driver → List (Except ε Unit) → List Call → Handled ε σ β → Prop
  | idle {s : σ} {d d' : Driver} {writes : List (Except ε Unit)} : d.poll = .ok (.idle, d') →
    LoopMakes s d writes [.poll .idle] ⟨.idle, s, d', writes⟩
  | heard {s s' : σ} {d d' : Driver} {writes : List (Except ε Unit)} {e : Event} {r : β} :
    d.poll = .ok (.event e, d') → handler s e = (some r, s') →
    LoopMakes s d writes [.poll (.event e)] ⟨.wanted r, s', d', writes⟩
  | event {s s₁ : σ} {d d₁ : Driver} {writes : List (Except ε Unit)} {e : Event}
    {calls : List Call} {l : Handled ε σ β} : d.poll = .ok (.event e, d₁) →
    handler s e = (none, s₁) → LoopMakes s₁ d₁ writes calls l →
    LoopMakes s d writes (.poll (.event e) :: calls) l
  | response {s : σ} {d d₁ : Driver} {writes : List (Except ε Unit)} {r : Response}
    {calls : List Call} {l : Handled ε σ β} : d.poll = .ok (.response r, d₁) →
    LoopMakes s d₁ writes calls l → LoopMakes s d writes (.poll (.response r) :: calls) l
  | unwritten {s : σ} {d d' : Driver} {bytes : List UInt8} {e : ε}
    {writes : List (Except ε Unit)} : d.poll = .ok (.needTx bytes, d') →
    LoopMakes s d (.error e :: writes) [.poll (.needTx bytes)] ⟨.failed e, s, d', writes⟩
  | written {s : σ} {d d₁ d₂ : Driver} {bytes : List UInt8} {writes : List (Except ε Unit)}
    {calls : List Call} {l : Handled ε σ β} : d.poll = .ok (.needTx bytes, d₁) →
    d₁.ackTx bytes.length = .ok d₂ → LoopMakes s d₂ writes calls l →
    LoopMakes s d (.ok () :: writes) (.poll (.needTx bytes) :: .ackTx bytes.length :: calls) l

/-- The loop around it makes the calls and ends. -/
inductive PumpMakes (deadline : Nat) : σ → Driver → Port ε → List Call → Heard ε σ β → Prop
  | heard {s s' : σ} {d d' : Driver} {port : Port ε} {writes : List (Except ε Unit)} {r : β}
    {calls : List Call} : LoopMakes handler s d port.writes calls ⟨.wanted r, s', d', writes⟩ →
    PumpMakes deadline s d port calls ⟨.ok r, s', d', { port with writes }⟩
  | failed {s s' : σ} {d d' : Driver} {port : Port ε} {writes : List (Except ε Unit)} {e : ε}
    {calls : List Call} : LoopMakes handler s d port.writes calls ⟨.failed e, s', d', writes⟩ →
    PumpMakes deadline s d port calls ⟨.error (.io e), s', d', { port with writes }⟩
  | gaveUp {s s' : σ} {d d₁ d' : Driver} {port port' : Port ε} {writes : List (Except ε Unit)}
    {e : Error ε} {calls : List Call} :
    LoopMakes handler s d port.writes calls ⟨.idle, s', d₁, writes⟩ →
    (turn deadline).run d₁ { port with writes } = .ok (.error e, d', port') →
    PumpMakes deadline s d port (calls ++ readCalls deadline d₁ { port with writes })
      ⟨.error e, s', d', port'⟩
  | turn {s s₁ : σ} {d d₁ d₂ : Driver} {port port₁ : Port ε} {writes : List (Except ε Unit)}
    {calls calls' : List Call} {h : Heard ε σ β} :
    LoopMakes handler s d port.writes calls ⟨.idle, s₁, d₁, writes⟩ →
    (turn deadline).run d₁ { port with writes } = .ok (.ok (), d₂, port₁) →
    PumpMakes deadline s₁ d₂ port₁ calls' h →
    PumpMakes deadline s d port
      (calls ++ (readCalls deadline d₁ { port with writes } ++ calls')) h

/-- `next_event` makes the calls and returns. -/
def Radio.Listens (radio : Radio ε) (timeout : Nat) (s : σ) (calls : List Call)
    (r : Except (Error ε) β) (s' : σ) (radio' : Radio ε) : Prop :=
  ∃ now clock h, radio.uart.clock = now :: clock ∧
    PumpMakes handler (now + timeout) s radio.driver { radio.uart with clock } calls h ∧
    r = h.result ∧ s' = h.state ∧ radio' = { radio with driver := h.driver, uart := h.uart }

variable {handler} {s s' : σ} {d : Driver} {calls : List Call}

theorem exists_loopMakes {writes : List (Except ε Unit)} {l : Handled ε σ β}
    (h : handlerLoop handler s d writes = .ok l) :
    ∃ calls, LoopMakes handler s d writes calls l := by
  fun_induction handlerLoop handler s d writes with
  | case1 | case6 | case8 => cases h
  | case2 s d writes d' hpoll =>
    cases h
    exact ⟨_, .idle hpoll⟩
  | case3 s d writes e d' hpoll hlt r s' hone =>
    cases h
    exact ⟨_, .heard hpoll hone⟩
  | case4 s d writes e d' hpoll hlt s₁ hone ih =>
    obtain ⟨calls, hcalls⟩ := ih h
    exact ⟨_, .event hpoll hone hcalls⟩
  | case5 s d writes r d' hpoll hlt ih =>
    obtain ⟨calls, hcalls⟩ := ih h
    exact ⟨_, .response hpoll hcalls⟩
  | case7 s d bytes d' hpoll e writes =>
    cases h
    exact ⟨_, .unwritten hpoll⟩
  | case9 s d bytes d₁ hpoll writes d₂ hack hlt ih =>
    obtain ⟨calls, hcalls⟩ := ih h
    exact ⟨_, .written hpoll hack hcalls⟩

theorem exists_pumpMakes {deadline : Nat} {port : Port ε} {h : Heard ε σ β}
    (hpump : handlerPump handler deadline s d port = .ok h) :
    ∃ calls, PumpMakes handler deadline s d port calls h := by
  fun_induction handlerPump handler deadline s d port with
  | case1 | case4 => cases hpump
  | case2 s d port r s' d' writes hloop =>
    cases hpump
    obtain ⟨calls, hcalls⟩ := exists_loopMakes hloop
    exact ⟨_, .heard hcalls⟩
  | case3 s d port e s' d' writes hloop =>
    cases hpump
    obtain ⟨calls, hcalls⟩ := exists_loopMakes hloop
    exact ⟨_, .failed hcalls⟩
  | case5 s d port s' d₁ writes hloop e d' port' hturn =>
    cases hpump
    obtain ⟨calls, hcalls⟩ := exists_loopMakes hloop
    exact ⟨_, .gaveUp hcalls hturn⟩
  | case6 s d port s₁ d₁ writes hloop d₂ port₁ hturn hlt ih =>
    obtain ⟨calls, hcalls⟩ := exists_loopMakes hloop
    obtain ⟨calls', hcalls'⟩ := ih hpump
    exact ⟨_, .turn hcalls hturn hcalls'⟩

/-- Every call of `next_event` that returns makes its calls. -/
theorem Radio.exists_listens {radio radio' : Radio ε} {timeout : Nat} {r : Except (Error ε) β}
    (h : radio.nextEvent handler timeout s = .ok (r, s', radio')) :
    ∃ calls, radio.Listens handler timeout s calls r s' radio' := by
  obtain ⟨⟨now, clock⟩, hclock, h⟩ := Except.bind_eq_ok.mp h
  obtain ⟨heard, hpump, h⟩ := Except.bind_eq_ok.mp h
  cases h
  obtain ⟨calls, hcalls⟩ := exists_pumpMakes hpump
  exact ⟨calls, now, clock, heard, answer_eq_ok.mp hclock, hcalls, rfl, rfl, rfl⟩

/-! ### What becomes of the events -/

/-- What the loop over `Driver::poll` does: it submits nothing, and the handler is called with each
event that is returned. -/
theorem LoopMakes.spec {writes : List (Except ε Unit)} {l : Handled ε σ β}
    (h : LoopMakes handler s d writes calls l) :
    d.Calls calls l.driver ∧ accepted calls = [] ∧
      heed handler s (calls.filterMap Call.event?) = (l.stop.wanted?, l.state, []) := by
  induction h with
  | idle hpoll => exact ⟨.poll hpoll .nil, rfl, rfl⟩
  | heard hpoll hone => exact ⟨.poll hpoll .nil, rfl, heed_of_some hone []⟩
  | event hpoll hone _ ih =>
    obtain ⟨hcalls, hacc, hheed⟩ := ih
    exact ⟨.poll hpoll hcalls, hacc, (heed_of_none hone _).trans hheed⟩
  | response hpoll _ ih =>
    obtain ⟨hcalls, hacc, hheed⟩ := ih
    exact ⟨.poll hpoll hcalls, hacc, hheed⟩
  | unwritten hpoll => exact ⟨.poll hpoll .nil, rfl, rfl⟩
  | written hpoll hack _ ih =>
    obtain ⟨hcalls, hacc, hheed⟩ := ih
    exact ⟨.poll hpoll (.cons (Driver.step_ackTx hack) hcalls), hacc, hheed⟩

/-- The loop around it, with the value that it returns. -/
theorem PumpMakes.spec {deadline : Nat} {port : Port ε} {h : Heard ε σ β}
    (hmakes : PumpMakes handler deadline s d port calls h) :
    d.Calls calls h.driver ∧ accepted calls = [] ∧
      heed handler s (calls.filterMap Call.event?) = (h.result.toOption, h.state, []) := by
  have hread (d : Driver) (port : Port ε) : accepted (readCalls deadline d port) = [] ∧
      (readCalls deadline d port).filterMap Call.event? = [] := by
    constructor <;> refine List.filterMap_eq_nil_iff.mpr fun c hc => ?_ <;>
      obtain ⟨bytes, r, rfl⟩ := readCalls_pushes deadline d port c hc <;> rfl
  induction hmakes with
  | heard hloop => exact hloop.spec
  | failed hloop => exact hloop.spec
  | gaveUp hloop hturn =>
    obtain ⟨hcalls, hacc, hheed⟩ := hloop.spec
    refine ⟨hcalls.append ((turn_makes deadline).calls hturn), ?_, ?_⟩
    · rw [accepted_append, hacc, (hread _ _).1]
      rfl
    · rw [List.filterMap_append, (hread _ _).2, List.append_nil, hheed]
      rfl
  | turn hloop hturn _ ih =>
    obtain ⟨hcalls, hacc, hheed⟩ := hloop.spec
    obtain ⟨hcalls', hacc', hheed'⟩ := ih
    refine ⟨hcalls.append (((turn_makes deadline).calls hturn).append hcalls'), ?_, ?_⟩
    · rw [accepted_append, accepted_append, hacc, (hread _ _).1, hacc']
      rfl
    · rw [List.filterMap_append, List.filterMap_append, (hread _ _).2, List.nil_append,
        heed_append hheed]
      exact hheed'

/-- **The handler is called with every event.** `next_event` submits nothing, the events that the
driver has returned to it are the ones that the handler has been called with, in order, and it
returns the first value that the handler has returned, and an error only if there is none. -/
theorem next_event_heeds {radio radio' : Radio ε} {timeout : Nat} {r : Except (Error ε) β}
    (h : radio.nextEvent handler timeout s = .ok (r, s', radio')) :
    ∃ calls, radio.Listens handler timeout s calls r s' radio' ∧
      radio.driver.Calls calls radio'.driver ∧ accepted calls = [] ∧
      heed handler s (calls.filterMap Call.event?) = (r.toOption, s', []) := by
  obtain ⟨calls, hlistens⟩ := Radio.exists_listens h
  obtain ⟨now, clock, heard, -, hmakes, rfl, rfl, rfl⟩ := id hlistens
  exact ⟨calls, hlistens, hmakes.spec⟩

end

section

attribute [local instance] Target.host

/-- A handler that waits for the second event. -/
theorem next_event_heeds_second : ∃ calls, accepted calls = [] ∧
    heed (fun n (_ : Event) => (if n = 1 then some n else none, n + 1)) 0
      (calls.filterMap Call.event?) = (some 1, 2, []) := by
  let line := rcvLine 5 (utf8 "hi") (-40) 10 ++ [cr, lf]
  let radio : Radio Unit := .new ⟨[], [.ok ⟨line ++ line ++ line, by decide⟩], [0, 0]⟩
  have hrun : (radio.nextEvent (fun n (_ : Event) => (if n = 1 then some n else none, n + 1)) 1
      0).map (fun q => (q.1.toOption, q.2.1)) = .ok (some 1, 2) := by
    decide +kernel
  obtain ⟨⟨r, n, radio'⟩, hreturns, hq⟩ := Except.map_eq_ok.mp hrun
  obtain ⟨hr, rfl⟩ := Prod.mk.inj hq
  obtain ⟨calls, -, -, hacc, hheed⟩ := next_event_heeds hreturns
  exact ⟨calls, hacc, hr ▸ hheed⟩

end

end Embassy

end Rylr998
