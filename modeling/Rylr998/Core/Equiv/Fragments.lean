import Rylr998.Core.Equiv.Lines
import Rylr998.Core.Equiv.Session

/-!
# Events around a reply

A command that waits for its reply with an empty `rx`, and a stream of events, the reply and more
events: however the stream is cut into chunks, a session returns the events before the reply, the
response, and the events after it (`events_around_reply`). The lines are accepted by the line
machine one after the other (`accepts_events`), so that `Driver.feed_of_accepts` applies.
-/

namespace Rylr998

open Framing

section

variable [Target]

/-- Outside a factory reset the line machine accepts event lines and stays in its mode. -/
theorem accepts_events {m : Mode} (hflag : m.awaitingReadyAsOk = false) {ls : List (List UInt8)}
    {es : List Event} (h : List.Forall₂ IsEvent ls es)
    (hls : ∀ l ∈ ls, cr ∉ l ∧ l.length ≤ lineBufLength) :
    driverMachine.Accepts m ls (es.map .event) m := by
  induction h with
  | nil => exact .nil
  | cons hl _ ih =>
    obtain ⟨hcr, hlen⟩ := hls _ List.mem_cons_self
    have hrest := ih fun l hl => hls l (List.mem_cons_of_mem _ hl)
    exact .take hcr (react_of_isEvent hl hlen hflag) hrest

/-- The lines of a reply among events. -/
theorem accepts_events_around_reply {m : Mode} (hflag : m.awaitingReadyAsOk = false)
    {kind : AwaitKind} (hstate : m.state = .awaiting kind) {ls₁ ls₂ : List (List UInt8)}
    {es₁ es₂ : List Event} (h₁ : List.Forall₂ IsEvent ls₁ es₁) (h₂ : List.Forall₂ IsEvent ls₂ es₂)
    {line : List UInt8} {r : Response} (hr : IsReply kind line r)
    (hls : ∀ l ∈ ls₁ ++ line :: ls₂, cr ∉ l ∧ l.length ≤ lineBufLength) :
    driverMachine.Accepts m (ls₁ ++ line :: ls₂)
      (es₁.map .event ++ .response r :: es₂.map .event) .idle := by
  obtain ⟨hcr, hlen⟩ := hls line (by simp)
  have hbefore := accepts_events hflag h₁ fun l hl => hls l (by simp [hl])
  have hafter := accepts_events (m := .idle) rfl h₂ fun l hl => hls l (by simp [hl])
  exact hbefore.append (.take hcr (react_of_isReply hr hlen hstate) hafter)

/-- **Events around a reply.** The session on a stream of events, the awaited reply and more events
returns exactly them, and leaves the driver idle with an empty `rx`. -/
theorem events_around_reply {ops : List Op} {calls : List Call} {d : Driver}
    (hrun : Runs ops calls d) {cmd : Command} (hcmd : (accepted calls).getLast? = some cmd)
    (hreset : cmd ≠ .factoryReset) {kind : AwaitKind} (hstate : d.state = .awaiting kind)
    (hrx : d.rx.data = []) {ls₁ ls₂ : List (List UInt8)} {es₁ es₂ : List Event}
    (h₁ : List.Forall₂ IsEvent ls₁ es₁) (h₂ : List.Forall₂ IsEvent ls₂ es₂) {line : List UInt8}
    {r : Response} (hr : IsReply cmd.awaitKind line r)
    (hls : ∀ l ∈ ls₁ ++ line :: ls₂, cr ∉ l ∧ l.length ≤ lineBufLength) {cs : List (List UInt8)}
    (hcs : cs.flatten = crlf.unlines (ls₁ ++ line :: ls₂))
    (hfit : ∀ e d', d.feed cs ≠ .ok (.error e, d')) :
    ∃ pss d', d.feed cs = .ok (.ok pss, d') ∧
      pss.flatten = es₁.map .event ++ .response r :: es₂.map .event ∧
      d'.rx.data = [] ∧ d'.state = .idle := by
  obtain ⟨cmd', hcmd', hserves⟩ := Runs.serves hrun (by rw [hstate]; nofun)
  obtain rfl : cmd = cmd' := Option.some.inj (hcmd.symm.trans hcmd')
  have hflag : d.mode.awaitingReadyAsOk = false := by
    rw [Driver.mode_awaitingReadyAsOk, hserves.flag, decide_eq_false hreset]
  have hkind := hserves.awaiting kind hstate
  have htx := (Runs.inv hrun).tx_le_of_awaiting hstate
  have haccepts := accepts_events_around_reply hflag (hstate.trans (congrArg _ hkind)) h₁ h₂ hr hls
  obtain ⟨pss, d', hd', hps, hm, hb⟩ := Driver.feed_of_accepts htx hrx haccepts hcs hfit
  refine ⟨pss, d', hd', ?_, hb, congrArg Mode.state hm⟩
  rw [hps, List.map_append, List.map_cons, List.map_map, List.map_map]
  rfl

end

section

attribute [local instance] Target.host

/-- `GetAddress` with a message before the reply and a reboot after it, cut inside the reply. -/
theorem events_around_reply_getAddress :
    ∃ pss d', Driver.feed { Driver.new with state := .awaiting (.query .address) }
        [rcvLine 7 [65] (-90) 11 ++ [cr, lf] ++ utf8 "+ADDRE", utf8 "SS=5" ++ [cr],
          lf :: utf8 "+READY" ++ [cr, lf]] = .ok (.ok pss, d') ∧
      pss.flatten = [.event (.recv 7 [65] (-90) 11), .response (.address 5), .event .ready] ∧
      d'.rx.data = [] ∧ d'.state = .idle := by
  have hrun : Runs [.submit .getAddress, .poll, .ackTx 13]
      [.submit .getAddress (.ok ()), .poll (.needTx (wire .getAddress)), .ackTx 13]
      { Driver.new with state := .awaiting (.query .address) } := by
    unfold Runs
    decide +kernel
  have hvalue : Denotes (utf8 "5") (5 : UInt16) := parseBytes_eq_ok_iff.mp (by decide +kernel)
  have hreply : IsReply Command.getAddress.awaitKind (utf8 "+ADDRESS=" ++ utf8 "5") (.address 5) :=
    .query (.address hvalue)
  refine events_around_reply hrun rfl nofun rfl rfl
    (.cons (Or.inl (isRcv_rcvLine 7 [65] (-90) 11 (by decide))) .nil)
    (.cons (Or.inr ⟨rfl, rfl⟩) .nil) hreply (by decide) rfl ?_
  exact Driver.feed_ne_error (by decide +kernel)

end

end Rylr998
