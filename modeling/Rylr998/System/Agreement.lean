import Rylr998.System.World
import Rylr998.Core.Equiv.Lines
import Rylr998.Core.Equiv.Runs

/-!
# Requests and replies agree

The k-th response that `poll` returns is the radio's answer to the k-th accepted command
(`request_reply_agreement`). The invariant (`World.Inv`) says which lines are on their way, from
the front of `rx` to the end of the wire: messages only while no command is in flight; lines that
the driver passes over while the radio has not answered; and, once it has, its answer behind such
lines and messages behind it. No answer to an earlier command is left when a command is accepted.
-/

namespace Rylr998

open Framing

/-- The line is a message. -/
def IsMessage [Target] (line : List UInt8) : Prop := ∃ e, IsRcv line e

/-- The line may stand before the answer to `cmd`: a message, or `+RESET` of a factory reset. -/
def Precedes [Target] (cmd : Command) (line : List UInt8) : Prop :=
  IsMessage line ∨ cmd = .factoryReset ∧ line = utf8 "+RESET"

/-- The line is the radio's answer to `cmd` and stands for the response `r`. -/
def IsAnswer (cmd : Command) (line : List UInt8) (r : Response) : Prop :=
  IsReply cmd.awaitKind line r ∨ cmd = .factoryReset ∧ line = utf8 "+READY" ∧ r = .ok

/-- `cmd` is in flight, the radio has not answered it, and `ls` is on its way. -/
structure Pending [Target] (w : World) (cmd : Command) (ls : List (List UInt8)) : Prop where
  inFlight : w.driver.state ≠ .idle
  serves : w.driver.Serves cmd
  accepted : w.accepted = w.answered.map Prod.fst ++ [cmd]
  responses : w.responses = w.answered.map Prod.snd
  precedes : ∀ l ∈ ls, Precedes cmd l

/-- What is on its way. -/
inductive InTransit [Target] (w : World) (ls : List (List UInt8)) : Prop
  /-- No command is in flight: all are answered, and only messages are on their way. -/
  | idle : w.driver.state = .idle → w.resetting = false → w.accepted = w.answered.map Prod.fst →
    w.responses = w.answered.map Prod.snd → (∀ l ∈ ls, IsMessage l) → InTransit w ls
  /-- The radio has not answered the command in flight. -/
  | unanswered {cmd : Command} : Pending w cmd ls →
    (w.resetting = true → cmd = .factoryReset) → InTransit w ls
  /-- The answer to the command in flight is on its way. -/
  | answered {cmd : Command} {r : Response} {answered : List (Command × Response)}
    {before after : List (List UInt8)} {line : List UInt8} : w.driver.state ≠ .idle →
    w.driver.Serves cmd → w.resetting = false → w.answered = answered ++ [(cmd, r)] →
    w.accepted = w.answered.map Prod.fst → w.responses = answered.map Prod.snd →
    ls = before ++ line :: after → (∀ l ∈ before, Precedes cmd l) → IsAnswer cmd line r →
    (∀ l ∈ after, IsMessage l) → InTransit w ls

/-- The invariant of the system. -/
structure World.Inv [Target] (w : World) : Prop where
  driver : w.driver.Inv
  /-- What is in `rx` and on the wire is a list of lines, in transit. -/
  transit : ∃ ls, w.driver.rx.data ++ w.wire = crlf.unlines ls ∧
    (∀ l ∈ ls, cr ∉ l ∧ l.length ≤ lineBufLength) ∧ InTransit w ls

/-- Lines at the front of a list that do not reach `line`. -/
theorem exists_before {α : Type} {line : α} {before after xs ms : List α} (hnot : line ∉ xs)
    (h : before ++ line :: after = xs ++ ms) :
    ∃ before', before = xs ++ before' ∧ ms = before' ++ line :: after := by
  rcases List.append_eq_append_iff.mp h with ⟨zs, rfl, hzs⟩ | h
  · cases zs with
    | nil => exact ⟨[], by simp, hzs.symm⟩
    | cons z zs =>
      obtain ⟨rfl, -⟩ := List.cons.inj hzs
      exact absurd (List.mem_append_right _ List.mem_cons_self) hnot
  · exact h

/-- A call that neither gets a command accepted nor returns a response. -/
theorem World.called_eq {w : World} {c : Call} {d : Driver} (ha : c.accepted? = none)
    (hr : c.response? = none) : w.called c d = { w with driver := d } := by
  rw [World.called, ha, hr]
  simp

section

variable [Target]

/-! ### Lines -/

theorem react_of_isMessage {m : Mode} {line : List UInt8} (h : IsMessage line)
    (hlen : line.length ≤ lineBufLength) : ∃ e, react m line = .take (some (.event e)) m := by
  obtain ⟨e, he⟩ := h
  exact ⟨e, react_of_isRcv he hlen⟩

/-- A line before the answer is skipped or taken as an event. -/
theorem react_of_precedes {m : Mode} {cmd : Command} {line : List UInt8}
    (hflag : m.awaitingReadyAsOk = decide (cmd = .factoryReset)) (h : Precedes cmd line)
    (hlen : line.length ≤ lineBufLength) :
    react m line = .skip ∨ ∃ e, react m line = .take (some (.event e)) m := by
  rcases h with h | ⟨rfl, rfl⟩
  · exact Or.inr (react_of_isMessage h hlen)
  · exact Or.inl (react_of_reset hlen (by rw [hflag]; decide))

/-- The answer is left in place, or it is taken as the response and ends the command. -/
theorem react_of_isAnswer {m : Mode} {cmd : Command} {line : List UInt8} {r : Response}
    (hflag : m.awaitingReadyAsOk = decide (cmd = .factoryReset))
    (hkind : ∀ kind, m.state = .awaiting kind → kind = cmd.awaitKind) (h : IsAnswer cmd line r)
    (hlen : line.length ≤ lineBufLength) :
    react m line = .keep ∨ react m line = .take (some (.response r)) .idle := by
  rcases h with h | ⟨rfl, rfl, rfl⟩
  · by_cases hstate : ∃ kind, m.state = .awaiting kind
    · obtain ⟨kind, hstate⟩ := hstate
      exact Or.inr (react_of_isReply (hkind kind hstate ▸ h) hlen hstate)
    · push Not at hstate
      exact Or.inl (react_of_isReply_of_not h hlen hstate)
  · exact Or.inr (react_ready_of_flag (by rw [hflag]; rfl))

/-- A line that the driver passes over in the mode `m`. -/
def PassedIn (m : Mode) (line : List UInt8) : Prop :=
  react m line = .skip ∨ ∃ e, react m line = .take (some (.event e)) m

/-- A step on lines that are passed over returns no response and keeps the mode. -/
theorem next_of_passed {m m' : Mode} {o : Option Output} {buf buf' rest : List UInt8}
    {ls : List (List UInt8)} (h : driverMachine.next m buf = .ok (o, m', buf'))
    (hls : buf ++ rest = crlf.unlines ls) (hcr : ∀ l ∈ ls, cr ∉ l)
    (hpassed : ∀ l ∈ ls, PassedIn m l) :
    ∃ xs ms, ls = xs ++ ms ∧ buf' ++ rest = crlf.unlines ms ∧ m' = m ∧
      ∀ r, o ≠ some (.response r) := by
  obtain ⟨skipped, hskip, ⟨rfl, rfl, rfl, -⟩ | ⟨l, hl, hr, rfl⟩⟩ := LineMachine.next_inv h
  · obtain ⟨ms, rfl, hrest⟩ := crlf.exists_of_unlines_append hcr hskip.not_mem
      (by simpa using hls)
    exact ⟨skipped, ms, rfl, hrest, rfl, nofun⟩
  · have hxs : ∀ x ∈ skipped ++ [l], crlf.first ∉ x :=
      List.forall_mem_append.mpr ⟨hskip.not_mem, List.forall_mem_singleton.mpr hl⟩
    obtain ⟨ms, rfl, hrest⟩ := crlf.exists_of_unlines_append hcr hxs (by simpa using hls)
    rcases hpassed l (by simp) with hs | ⟨e, he⟩
    · cases hs.symm.trans hr
    · cases he.symm.trans hr
      exact ⟨skipped ++ [l], ms, rfl, hrest, rfl, nofun⟩

/-- A step on lines that are passed over, an answer and more lines: the answer is still on its way,
or it is returned. -/
theorem next_of_answer {m m' : Mode} {o : Option Output} {buf buf' rest : List UInt8} {r : Response}
    {before after : List (List UInt8)} {line : List UInt8}
    (h : driverMachine.next m buf = .ok (o, m', buf'))
    (hls : buf ++ rest = crlf.unlines (before ++ line :: after))
    (hcr : ∀ l ∈ before ++ line :: after, cr ∉ l) (hpassed : ∀ l ∈ before, PassedIn m l)
    (hanswer : react m line = .keep ∨ react m line = .take (some (.response r)) .idle) :
    (m' = m ∧ (∀ r, o ≠ some (.response r)) ∧ ∃ xs before', before = xs ++ before' ∧
        buf' ++ rest = crlf.unlines (before' ++ line :: after)) ∨
      (m' = .idle ∧ o = some (.response r) ∧ buf' ++ rest = crlf.unlines after) := by
  have hnot_skip : react m line ≠ .skip := by
    rcases hanswer with h | h <;> rw [h] <;> nofun
  obtain ⟨skipped, hskip, hcase⟩ := LineMachine.next_inv h
  -- so the lines skipped all come before the answer
  have hnot : line ∉ skipped := fun hmem => hnot_skip (hskip line hmem).2
  have hcut {tail : List UInt8} (htail : buf = crlf.unlines skipped ++ tail) :
      ∃ before', before = skipped ++ before' ∧
        tail ++ rest = crlf.unlines (before' ++ line :: after) := by
    obtain ⟨ms, hms, hrest⟩ := crlf.exists_of_unlines_append hcr hskip.not_mem
      (by rw [← hls, htail, List.append_assoc])
    obtain ⟨before', rfl, rfl⟩ := exists_before hnot hms
    exact ⟨before', rfl, hrest⟩
  rcases hcase with ⟨rfl, rfl, hbuf, -⟩ | ⟨l, hl, hr, hbuf⟩
  · obtain ⟨before', rfl, hrest⟩ := hcut hbuf
    exact Or.inl ⟨rfl, nofun, skipped, before', rfl, hrest⟩
  · obtain ⟨before', rfl, hrest⟩ := hcut hbuf
    cases before' with
    | nil =>
      -- the line taken is the answer
      have hline := hcr line (by simp)
      obtain ⟨rfl, hafter⟩ := crlf.line_unique hl hline (by simpa using hrest)
      rcases hanswer with h | h
      · cases h.symm.trans hr
      · cases h.symm.trans hr
        exact Or.inr ⟨rfl, rfl, hafter⟩
    | cons x before' =>
      have hx := hcr x (by simp)
      obtain ⟨rfl, hbefore⟩ := crlf.line_unique hl hx (by simpa using hrest)
      -- the line taken is a message
      rcases hpassed l (by simp) with hs | ⟨e, he⟩
      · cases hs.symm.trans hr
      · cases he.symm.trans hr
        exact Or.inl ⟨rfl, nofun, skipped ++ [l], before', by simp, by simpa using hbefore⟩

/-! ### The invariant -/

/-- What is on its way does not depend on the driver's buffers. -/
theorem InTransit.of_driver {w : World} {ls : List (List UInt8)} (h : InTransit w ls) {d : Driver}
    {wire : List UInt8} (hidle : d.state = .idle ↔ w.driver.state = .idle)
    (hserves : d.state ≠ .idle → ∀ cmd, w.driver.Serves cmd → d.Serves cmd) :
    InTransit { w with driver := d, wire } ls := by
  cases h with
  | idle hstate hreset hacc hresp hls => exact .idle (hidle.mpr hstate) hreset hacc hresp hls
  | unanswered h hreset =>
    have hne := mt hidle.mp h.inFlight
    exact .unanswered ⟨hne, hserves hne _ h.serves, h.accepted, h.responses, h.precedes⟩ hreset
  | answered hstate hs hreset hans hacc hresp heq hbefore hline hafter =>
    have hne := mt hidle.mp hstate
    exact .answered hne (hserves hne _ hs) hreset hans hacc hresp heq hbefore hline hafter

theorem World.inv_init : World.init.Inv :=
  ⟨Driver.inv_new, [], rfl, nofun, .idle rfl rfl rfl rfl nofun⟩

/-- The radio sends a line. -/
theorem World.Inv.sent {w w' : World} {ls : List (List UInt8)} {line : List UInt8}
    (hd : w.driver.Inv) (hbytes : w.driver.rx.data ++ w.wire = crlf.unlines ls)
    (hls : ∀ l ∈ ls, cr ∉ l ∧ l.length ≤ lineBufLength) (hcr : cr ∉ line)
    (hlen : line.length ≤ lineBufLength) (hdriver : w'.driver = w.driver)
    (hwire : w'.wire = w.wire ++ (line ++ [cr, lf])) (h : InTransit w' (ls ++ [line])) :
    w'.Inv := by
  refine ⟨hdriver ▸ hd, ls ++ [line], ?_, ?_, h⟩
  · rw [hdriver, hwire, ← List.append_assoc, hbytes]
    simp
  · exact List.forall_mem_append.mpr ⟨hls, List.forall_mem_singleton.mpr ⟨hcr, hlen⟩⟩

/-- The command that the radio owes an answer to is pending. -/
theorem InTransit.pending_of_owes {w : World} {ls : List (List UInt8)} {cmd : Command}
    (h : InTransit w ls) (ho : w.Owes cmd) : Pending w cmd ls := by
  obtain ⟨-, hnext⟩ := ho
  cases h with
  | idle _ _ hacc | answered _ _ _ _ hacc => simp [hacc] at hnext
  | unanswered h =>
    rw [h.accepted, List.getElem?_append_right (by simp)] at hnext
    obtain rfl : _ = cmd := by simpa using hnext
    exact h

/-- A radio that is resetting has not answered a factory reset. -/
theorem InTransit.pending_of_resetting {w : World} {ls : List (List UInt8)} (h : InTransit w ls)
    (hr : w.resetting = true) : Pending w .factoryReset ls := by
  cases h with
  | idle _ hreset | answered _ _ hreset => cases hreset.symm.trans hr
  | unanswered h hreset => exact hreset hr ▸ h

/-- A message does not disturb what is on its way. -/
theorem InTransit.message {w : World} {ls : List (List UInt8)} {line : List UInt8}
    (h : InTransit w ls) (hl : IsMessage line) : InTransit (w.sent line) (ls ++ [line]) := by
  cases h with
  | idle hstate hreset hacc hresp hls =>
    exact .idle hstate hreset hacc hresp
      (List.forall_mem_append.mpr ⟨hls, List.forall_mem_singleton.mpr hl⟩)
  | @unanswered cmd h hreset =>
    have hprecedes : ∀ l ∈ ls ++ [line], Precedes cmd l :=
      List.forall_mem_append.mpr ⟨h.precedes, List.forall_mem_singleton.mpr (Or.inl hl)⟩
    exact .unanswered ⟨h.inFlight, h.serves, h.accepted, h.responses, hprecedes⟩ hreset
  | @answered cmd r answered before after line' hstate hs hreset hans hacc hresp heq hbefore hline
      hafter =>
    refine .answered hstate hs hreset hans hacc hresp ?_ hbefore hline
      (List.forall_mem_append.mpr ⟨hafter, List.forall_mem_singleton.mpr hl⟩)
    simp [heq]

/-- The radio answers the command that is pending. -/
theorem Pending.answer {w w' : World} {cmd : Command} {r : Response} {ls : List (List UInt8)}
    {line : List UInt8} (h : Pending w cmd ls) (hline : IsAnswer cmd line r)
    (hdriver : w'.driver = w.driver) (hacc : w'.accepted = w.accepted)
    (hresp : w'.responses = w.responses) (hans : w'.answered = w.answered ++ [(cmd, r)])
    (hreset : w'.resetting = false) : InTransit w' (ls ++ [line]) := by
  refine .answered (hdriver ▸ h.inFlight) (hdriver ▸ h.serves) hreset hans ?_
    (hresp.trans h.responses) rfl h.precedes hline nofun
  rw [hacc, h.accepted, hans, List.map_append]
  rfl

/-- A poll takes lines off what is on its way. -/
theorem InTransit.lines {w : World} {ls : List (List UInt8)} {o : Option Output} {d : Driver}
    (h : InTransit w ls) (hbytes : w.driver.rx.data ++ w.wire = crlf.unlines ls)
    (hls : ∀ l ∈ ls, cr ∉ l ∧ l.length ≤ lineBufLength)
    (hn : driverMachine.next w.driver.mode w.driver.rx.data = .ok (o, d.mode, d.rx.data))
    (hserves : d.state ≠ .idle → ∀ cmd, w.driver.Serves cmd → d.Serves cmd) :
    ∃ xs ms, ls = xs ++ ms ∧ d.rx.data ++ w.wire = crlf.unlines ms ∧
      InTransit (w.called (.poll (pollOf o)) d) ms := by
  have hcr : ∀ l ∈ ls, cr ∉ l := fun l hl => (hls l hl).1
  have hquiet (ho : ∀ r, o ≠ some (.response r)) :
      w.called (.poll (pollOf o)) d = { w with driver := d } := by
    apply World.called_eq rfl
    rcases o with _ | r | e
    · rfl
    · exact absurd rfl (ho r)
    · rfl
  have hsame (hm : d.mode = w.driver.mode) : d.state = .idle ↔ w.driver.state = .idle := by
    rw [show d.state = w.driver.state from congrArg Mode.state hm]
  cases h with
  | idle hstate hreset hacc hresp hmsg =>
    -- nothing is in flight: the poll passes messages only
    obtain ⟨xs, ms, rfl, hrest, hm, ho⟩ := next_of_passed hn hbytes hcr
      fun l hl => Or.inr (react_of_isMessage (hmsg l hl) (hls l hl).2)
    refine ⟨xs, ms, rfl, hrest, ?_⟩
    rw [hquiet ho]
    exact .idle ((hsame hm).mpr hstate) hreset hacc hresp
      fun l hl => hmsg l (List.mem_append_right _ hl)
  | @unanswered cmd h hreset =>
    -- the answer is not sent yet: the poll passes what may come before it
    obtain ⟨xs, ms, rfl, hrest, hm, ho⟩ := next_of_passed hn hbytes hcr
      fun l hl => react_of_precedes h.serves.flag (h.precedes l hl) (hls l hl).2
    have hpending : Pending w cmd ms :=
      ⟨h.inFlight, h.serves, h.accepted, h.responses,
        fun l hl => h.precedes l (List.mem_append_right _ hl)⟩
    have hwaiting : InTransit w ms := .unanswered hpending hreset
    refine ⟨xs, ms, rfl, hrest, ?_⟩
    rw [hquiet ho]
    exact hwaiting.of_driver (hsame hm) hserves
  | @answered cmd r answered before after line hstate hs hreset hans hacc hresp heq hbefore hline
      hafter =>
    subst heq
    -- the poll stops before the line with the answer, or takes it and frees the slot
    have hlong : ∀ l ∈ before ++ line :: after, l.length ≤ lineBufLength := fun l hl => (hls l hl).2
    rcases next_of_answer hn hbytes hcr
      (fun l hl => react_of_precedes hs.flag (hbefore l hl) (hlong l (by simp [hl])))
      (react_of_isAnswer hs.flag hs.awaiting hline (hlong line (by simp))) with
      ⟨hm, ho, xs, before', rfl, hrest⟩ | ⟨hm, rfl, hrest⟩
    · have hbefore' : ∀ l ∈ before', Precedes cmd l := fun l hl =>
        hbefore l (List.mem_append_right _ hl)
      have hwaiting : InTransit w (before' ++ line :: after) :=
        .answered hstate hs hreset hans hacc hresp rfl hbefore' hline hafter
      refine ⟨xs, before' ++ line :: after, by simp, hrest, ?_⟩
      rw [hquiet ho]
      exact hwaiting.of_driver (hsame hm) hserves
    · have hidle : d.state = .idle := congrArg Mode.state hm
      have haccepted : (w.called (.poll (.response r)) d).accepted = w.answered.map Prod.fst := by
        simpa [World.called, Call.accepted?] using hacc
      have hresponses : (w.called (.poll (.response r)) d).responses =
          w.answered.map Prod.snd := by
        simp [World.called, Call.response?, hresp, hans]
      refine ⟨before ++ [line], after, by simp, hrest, ?_⟩
      exact .idle hidle hreset haccepted hresponses hafter

/-- The caller submits, polls or acknowledges. -/
theorem World.Inv.call {w : World} {op : Op} {c : Call} {d : Driver} (h : w.Inv)
    (hop : ∀ bytes, op ≠ .pushRx bytes) (hstep : w.driver.step op = .ok (c, d)) :
    (w.called c d).Inv := by
  obtain ⟨hd, ls, hbytes, hls, htr⟩ := h
  refine ⟨Driver.inv_step hd hstep, ?_⟩
  have hserves (hc : c.accepted? = none) (hne : d.state ≠ .idle) (cmd : Command)
      (hs : w.driver.Serves cmd) : d.Serves cmd := Driver.serves_step hd hs hstep hc hne
  -- a call that leaves the bytes of `rx` alone and the slot open or taken as it is
  have hkeep (ha : c.accepted? = none) (hr : c.response? = none)
      (hrx : d.rx.data = w.driver.rx.data) (hidle : d.state = .idle ↔ w.driver.state = .idle) :
      ∃ ls, (w.called c d).driver.rx.data ++ (w.called c d).wire = crlf.unlines ls ∧
        (∀ l ∈ ls, cr ∉ l ∧ l.length ≤ lineBufLength) ∧ InTransit (w.called c d) ls := by
    rw [World.called_eq ha hr]
    exact ⟨ls, by rw [hrx, hbytes], hls, htr.of_driver hidle (hserves ha)⟩
  cases Driver.step_spec hd hstep with
  | busy | refuse | needTx | ack => exact hkeep rfl rfl rfl Iff.rfl
  | push bytes | overflow bytes => exact absurd rfl (hop bytes)
  | sent n kind htx hstate =>
    exact hkeep rfl rfl rfl (iff_of_false nofun (by rw [hstate]; nofun))
  | accept cmd hfit hidle =>
    refine ⟨ls, hbytes, hls, ?_⟩
    -- only an idle driver accepts: the new command is the one the radio owes an answer to
    cases htr with
    | idle _ hreset hacc hresp hmsg =>
      have hserved : (w.driver.accept cmd hfit).Serves cmd := ⟨rfl, fun _ => rfl, nofun⟩
      have hpending :
          Pending (w.called (.submit cmd (.ok ())) (w.driver.accept cmd hfit)) cmd ls := by
        refine ⟨nofun, hserved, ?_, ?_, ?_⟩
        · simp [World.called, Call.accepted?, hacc]
        · simp [World.called, Call.response?, hresp]
        · intro l hl
          exact Or.inl (hmsg l hl)
      apply InTransit.unanswered hpending
      intro hr
      cases hreset.symm.trans hr
    | unanswered h => exact absurd hidle h.inFlight
    | answered hne => exact absurd hidle hne
  | lines o _ _ hn =>
    obtain ⟨xs, ms, rfl, hrest, htr'⟩ := htr.lines hbytes hls hn (hserves rfl)
    exact ⟨ms, hrest, fun l hl => hls l (List.mem_append_right _ hl), htr'⟩

/-- The caller pushes what is next on the wire. -/
theorem World.Inv.push {w : World} {bytes rest : List UInt8} {n : Nat} {d : Driver} (h : w.Inv)
    (hwire : w.wire = bytes ++ rest)
    (hstep : w.driver.step (.pushRx bytes) = .ok (.pushRx bytes (.ok n), d)) :
    ({ w with driver := d, wire := rest } : World).Inv := by
  obtain ⟨hd, ls, hbytes, hls, htr⟩ := h
  have hserves (hne : d.state ≠ .idle) (cmd : Command) (hs : w.driver.Serves cmd) :
      d.Serves cmd := Driver.serves_step hd hs hstep rfl hne
  refine ⟨Driver.inv_step hd hstep, ls, ?_, hls, ?_⟩
  · cases Driver.step_spec hd hstep with
    | push => rw [← hbytes, hwire]; simp
  · cases Driver.step_spec hd hstep with
    | push => exact htr.of_driver Iff.rfl hserves

theorem World.inv_step {w w' : World} (h : w.Inv) (hstep : World.Step w w') : w'.Inv := by
  have hd := h.driver
  obtain ⟨ls, hbytes, hls, htr⟩ := h.transit
  cases hstep with
  | call hop hs => exact h.call hop hs
  | push hwire hs => exact h.push hwire hs
  | message hl hcr hlen => exact .sent hd hbytes hls hcr hlen rfl rfl (htr.message ⟨_, hl⟩)
  | reply ho hl hok hcr hlen =>
    have hp := htr.pending_of_owes ho
    refine .sent hd hbytes hls hcr hlen rfl rfl ?_
    exact hp.answer (Or.inl hl) rfl rfl rfl rfl ho.1
  | reset ho =>
    have hp := htr.pending_of_owes ho
    have hreset : Precedes .factoryReset (utf8 "+RESET") := Or.inr ⟨rfl, rfl⟩
    have hprecedes : ∀ l ∈ ls ++ [utf8 "+RESET"], Precedes .factoryReset l :=
      List.forall_mem_append.mpr ⟨hp.precedes, List.forall_mem_singleton.mpr hreset⟩
    refine .sent hd hbytes hls (by decide) (by decide) rfl rfl ?_
    exact .unanswered ⟨hp.inFlight, hp.serves, hp.accepted, hp.responses, hprecedes⟩ fun _ => rfl
  | ready hr =>
    have hp := htr.pending_of_resetting hr
    have hready : IsAnswer .factoryReset (utf8 "+READY") .ok := Or.inr ⟨rfl, rfl, rfl⟩
    refine .sent hd hbytes hls (by decide) (by decide) rfl rfl ?_
    exact hp.answer hready rfl rfl rfl rfl rfl

theorem World.Reached.inv {w : World} (h : w.Reached) : w.Inv := by
  induction h with
  | refl => exact World.inv_init
  | tail _ hstep hinv => exact World.inv_step hinv hstep

/-! ### Agreement -/

/-- The radio has answered the accepted commands in order, up to the one in flight, and the
responses returned are those of its answers, up to the one in transit. -/
theorem World.Inv.prefixes {w : World} (h : w.Inv) :
    w.answered.map Prod.fst <+: w.accepted ∧ w.responses <+: w.answered.map Prod.snd := by
  obtain ⟨-, ls, -, -, htr⟩ := h
  cases htr with
  | idle _ _ hacc hresp => exact ⟨hacc ▸ List.prefix_refl _, hresp ▸ List.prefix_refl _⟩
  | unanswered h =>
    exact ⟨h.accepted ▸ List.prefix_append _ _, h.responses ▸ List.prefix_refl _⟩
  | answered _ _ _ hans hacc hresp =>
    refine ⟨hacc ▸ List.prefix_refl _, ?_⟩
    rw [hresp, hans, List.map_append]
    exact List.prefix_append _ _

/-- **Request/reply agreement.** The k-th response returned is what the radio answered to the k-th
accepted command. -/
theorem request_reply_agreement {w : World} (h : w.Reached) {k : Nat} {r : Response}
    (hk : w.responses[k]? = some r) :
    ∃ cmd, w.accepted[k]? = some cmd ∧ w.answered[k]? = some (cmd, r) := by
  obtain ⟨⟨rest, hacc⟩, ⟨rest', hresp⟩⟩ := h.inv.prefixes
  have hr : (w.answered.map Prod.snd)[k]? = some r := by
    rw [← hresp, List.getElem?_append_left (List.getElem?_eq_some_iff.mp hk).1, hk]
  rw [List.getElem?_map, Option.map_eq_some_iff] at hr
  obtain ⟨⟨cmd, r'⟩, hans, rfl⟩ := hr
  refine ⟨cmd, ?_, hans⟩
  have hcmd : (w.answered.map Prod.fst)[k]? = some cmd := by
    rw [List.getElem?_map, hans, Option.map_some]
  rw [← hacc, List.getElem?_append_left (List.getElem?_eq_some_iff.mp hcmd).1, hcmd]

end

section

attribute [local instance] Target.host

/-- A ping, its reply and the response. -/
theorem request_reply_agreement_ping : ∃ w : World, w.responses = [.ok] ∧
    ∃ cmd, w.accepted[0]? = some cmd ∧ w.answered[0]? = some (cmd, .ok) := by
  let accepting := Driver.new.accept .ping (by decide)
  let awaiting : Driver := { Driver.new with state := .awaiting .ack }
  let pushed : Driver := { awaiting with rx := Driver.new.rx.append (utf8 "+OK\r\n") (by decide) }
  have h₁ : World.Reached (World.init.called (.submit .ping (.ok ())) accepting) :=
    .single (@World.Step.call _ _ (.submit .ping) _ _ nofun (by decide +kernel))
  have h₂ := h₁.tail (@World.Step.call _ _ .poll (.poll (.needTx (wire .ping)))
    { accepting with txInFlight := 4 } nofun (by decide +kernel))
  have h₃ := h₂.tail (@World.Step.call _ _ (.ackTx 4) (.ackTx 4) awaiting nofun (by decide +kernel))
  have h₄ := h₃.tail (@World.Step.reply _ _ .ping (utf8 "+OK") .ok ⟨rfl, rfl⟩ .ok nofun (by decide)
    (by decide))
  have h₅ := h₄.tail (@World.Step.push _ _ (utf8 "+OK\r\n") [] 5 pushed rfl (by decide +kernel))
  have h₆ := h₅.tail (@World.Step.call _ _ .poll (.poll (.response .ok))
    (Driver.new.copyLine (utf8 "+OK")) nofun (by decide +kernel))
  exact ⟨_, rfl, request_reply_agreement h₆ (k := 0) rfl⟩

end

end Rylr998
