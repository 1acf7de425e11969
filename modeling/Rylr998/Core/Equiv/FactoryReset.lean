import Rylr998.Core.Equiv.Fragments

/-!
# A factory reset

While a factory reset waits for `+READY`, messages are passed on and `+RESET` lines are passed over;
`+READY` ends it, and from then on is an event again. `factory_reset_resolves` is the whole session:
however the stream is cut into chunks, it returns the messages before `+READY`, one `Response.ok`
and the events behind it.
-/

namespace Rylr998

open Framing

section

variable [Target]

/-- A line that may come before the `+READY` of a factory reset, and the event it yields. -/
inductive DuringReset : List UInt8 → Option Event → Prop
  | rcv {line : List UInt8} {e : Event} : IsRcv line e → DuringReset line (some e)
  | reset {line : List UInt8} : startsWith line (utf8 "+RESET") = true → DuringReset line none

/-- During a factory reset the line machine passes the messages on and the `+RESET` lines over. -/
theorem accepts_during_reset {m : Mode} (hflag : m.awaitingReadyAsOk = true)
    {ls : List (List UInt8)} {os : List (Option Event)} (h : List.Forall₂ DuringReset ls os)
    (hls : ∀ l ∈ ls, cr ∉ l ∧ l.length ≤ lineBufLength) :
    driverMachine.Accepts m ls (os.reduceOption.map .event) m := by
  induction h with
  | nil => exact .nil
  | cons hl _ ih =>
    obtain ⟨hcr, hlen⟩ := hls _ List.mem_cons_self
    have hrest := ih fun l hl => hls l (List.mem_cons_of_mem _ hl)
    cases hl with
    | rcv hrcv => exact .take hcr (react_of_isRcv hrcv hlen) hrest
    | reset hreset => exact .skip hcr (react_of_reset hlen (by rw [hflag, hreset]; rfl)) hrest

theorem accepts_factory_reset {m : Mode} (hflag : m.awaitingReadyAsOk = true)
    {ls₁ ls₂ : List (List UInt8)} {os₁ : List (Option Event)} {es₂ : List Event}
    (h₁ : List.Forall₂ DuringReset ls₁ os₁) (h₂ : List.Forall₂ IsEvent ls₂ es₂)
    (hls : ∀ l ∈ ls₁ ++ ls₂, cr ∉ l ∧ l.length ≤ lineBufLength) :
    driverMachine.Accepts m (ls₁ ++ utf8 "+READY" :: ls₂)
      (os₁.reduceOption.map .event ++ .response .ok :: es₂.map .event) .idle := by
  have hbefore := accepts_during_reset hflag h₁ fun l hl => hls l (by simp [hl])
  have hafter := accepts_events (m := .idle) rfl h₂ fun l hl => hls l (by simp [hl])
  have hcr : cr ∉ utf8 "+READY" := by decide
  exact hbefore.append (.take hcr (react_ready_of_flag hflag) hafter)

/-- **A factory reset.** The session on messages and `+RESET` lines, `+READY`, and events returns
the messages, one `Response.ok` and the events, and leaves the driver idle with an empty `rx`. -/
theorem factory_reset_resolves {ops : List Op} {calls : List Call} {d : Driver}
    (hrun : Runs ops calls d) (hcmd : (accepted calls).getLast? = some .factoryReset)
    {kind : AwaitKind} (hstate : d.state = .awaiting kind) (hrx : d.rx.data = [])
    {ls₁ ls₂ : List (List UInt8)} {os₁ : List (Option Event)} {es₂ : List Event}
    (h₁ : List.Forall₂ DuringReset ls₁ os₁) (h₂ : List.Forall₂ IsEvent ls₂ es₂)
    (hls : ∀ l ∈ ls₁ ++ ls₂, cr ∉ l ∧ l.length ≤ lineBufLength) {cs : List (List UInt8)}
    (hcs : cs.flatten = crlf.unlines (ls₁ ++ utf8 "+READY" :: ls₂))
    (hfit : ∀ e d', d.feed cs ≠ .ok (.error e, d')) :
    ∃ pss d', d.feed cs = .ok (.ok pss, d') ∧
      pss.flatten = os₁.reduceOption.map .event ++ .response .ok :: es₂.map .event ∧
      d'.rx.data = [] ∧ d'.state = .idle := by
  obtain ⟨cmd, hcmd', hserves⟩ := Runs.serves hrun (by rw [hstate]; nofun)
  obtain rfl : .factoryReset = cmd := Option.some.inj (hcmd.symm.trans hcmd')
  have hflag : d.mode.awaitingReadyAsOk = true := hserves.flag
  have htx := (Runs.inv hrun).tx_le_of_awaiting hstate
  have haccepts := accepts_factory_reset hflag h₁ h₂ hls
  obtain ⟨pss, d', hd', hps, hm, hb⟩ := Driver.feed_of_accepts htx hrx haccepts hcs hfit
  refine ⟨pss, d', hd', ?_, hb, congrArg Mode.state hm⟩
  rw [hps, List.map_append, List.map_cons, List.map_map, List.map_map]
  rfl

end

section

attribute [local instance] Target.host

/-- A driver whose factory reset is sent and acknowledged. -/
def Driver.resetting : Driver :=
  { Driver.new with state := .awaiting .ack, awaitingReadyAsOk := true }

/-- Two `+RESET` lines around a message, `+READY`, and another `+READY`. -/
theorem factory_reset_resolves_twice :
    ∃ pss d', Driver.resetting.feed
        [utf8 "+RESET\r\n+RE", utf8 "SET\r\n" ++ rcvLine 7 [66] (-90) 11 ++ [cr],
          lf :: utf8 "+READY\r\n+READY\r\n"] = .ok (.ok pss, d') ∧
      pss.flatten = [.event (.recv 7 [66] (-90) 11), .response .ok, .event .ready] ∧
      d'.rx.data = [] ∧ d'.state = .idle := by
  have hrun : Runs [.submit .factoryReset, .poll, .ackTx 10]
      [.submit .factoryReset (.ok ()), .poll (.needTx (wire .factoryReset)), .ackTx 10]
      Driver.resetting := by
    unfold Runs
    decide +kernel
  have hrcv := isRcv_rcvLine 7 [66] (-90) 11 (by decide)
  have hbefore : List.Forall₂ DuringReset
      [utf8 "+RESET", utf8 "+RESET", rcvLine 7 [66] (-90) 11]
      [none, none, some (.recv 7 [66] (-90) 11)] :=
    .cons (.reset (by decide)) (.cons (.reset (by decide)) (.cons (.rcv hrcv) .nil))
  have hafter : List.Forall₂ IsEvent [utf8 "+READY"] [.ready] := .cons (Or.inr ⟨rfl, rfl⟩) .nil
  refine factory_reset_resolves hrun rfl rfl rfl hbefore hafter (by decide) (by decide +kernel) ?_
  exact Driver.feed_ne_error (by decide +kernel)

end

end Rylr998
