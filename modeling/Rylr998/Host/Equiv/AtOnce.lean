import Rylr998.Core.Equiv.Lines
import Rylr998.Core.Equiv.OneLine
import Rylr998.Host.Equiv.Calls

/-!
# A command that is answered at once

The radio answers a command as soon as it has the bytes, with a line that comes in with one read
(`AtOnce`). Then a command method returns what the line stands for
(`Std.Radio.command_of_exchanged`), and the driver holds nothing, before it and after it
(`Driver.Quiet`).
-/

namespace Rylr998

/-- The command is one that fits into `tx`, and `line` answers it and can be read at once. -/
structure AtOnce (cmd : Command) (line : List UInt8) (r : Response) : Prop where
  single : ¬ cmd.Splits
  fits : (wire cmd).length ≤ txBuf
  reply : IsReply cmd.awaitKind line r
  notOk : cmd = .factoryReset → r ≠ .ok
  oneLine : cr ∉ line
  short : line.length + 2 ≤ 256

theorem atOnce_ping : AtOnce .ping (utf8 "+OK") .ok :=
  ⟨by decide, by decide, .ok, nofun, by decide, by decide⟩

theorem atOnce_address : AtOnce .getAddress (utf8 "+ADDRESS=" ++ utf8 "7") (.address 7) :=
  ⟨by decide, by decide, .query (.address (denotes_numeral (7 : UInt16))), nofun, by decide,
    by decide⟩

/-- What the read returns. -/
def AtOnce.chunk {cmd : Command} {line : List UInt8} {r : Response} (h : AtOnce cmd line r) :
    Chunk :=
  ⟨line ++ [cr, lf], (List.length_append ..).trans_le h.short⟩

/-- The calls of a command that is answered at once. -/
def exchangeCalls (cmd : Command) (line : List UInt8) (r : Response) : List Call :=
  [.submit cmd (.ok ()), .poll (.needTx (wire cmd)), .ackTx (wire cmd).length, .poll .idle,
    .pushRx (line ++ [cr, lf]) (.ok (line ++ [cr, lf]).length), .poll (.response r)]

/-- The calls lead from `d` to `d'`. -/
inductive Driver.Exchanged [Target] (d : Driver) (cmd : Command) (line : List UInt8) (r : Response)
    (d' : Driver) : Prop
  | intro {d₁ d₂ d₃ d₄ : Driver} (submit : d.submit cmd = .ok (.ok (), d₁))
    (needTx : d₁.poll = .ok (.needTx (wire cmd), d₂))
    (ack : d₂.ackTx (wire cmd).length = .ok d₃) (idle : d₃.poll = .ok (.idle, d₃))
    (push : d₃.pushRx (line ++ [cr, lf]) = .ok (.ok (line ++ [cr, lf]).length, d₄))
    (response : d₄.poll = .ok (.response r, d'))

/-- The driver waits for nothing and holds nothing. -/
structure Driver.Quiet (d : Driver) : Prop where
  inv : d.Inv
  idle : d.state = .idle
  tx : d.tx.data = []
  rx : d.rx.data = []

theorem Driver.quiet_new : new.Quiet := ⟨inv_new, rfl, rfl, rfl⟩

section

variable [Target] {cmd : Command} {line : List UInt8} {r : Response}

namespace Driver

variable {d d' : Driver}

theorem step_submit {res : Except Error Unit} (h : d.submit cmd = .ok (res, d')) :
    d.step (.submit cmd) = .ok (.submit cmd res, d') :=
  Except.map_eq_ok.mpr ⟨_, h, rfl⟩

theorem step_poll {p : Poll} (h : d.poll = .ok (p, d')) : d.step .poll = .ok (.poll p, d') :=
  Except.map_eq_ok.mpr ⟨_, h, rfl⟩

theorem step_ackTx {n : Nat} (h : d.ackTx n = .ok d') : d.step (.ackTx n) = .ok (.ackTx n, d') :=
  Except.map_eq_ok.mpr ⟨_, h, rfl⟩

theorem step_pushRx {bytes : List UInt8} {res : Except Error Nat}
    (h : d.pushRx bytes = .ok (res, d')) : d.step (.pushRx bytes) = .ok (.pushRx bytes res, d') :=
  Except.map_eq_ok.mpr ⟨_, h, rfl⟩

end Driver

/-- A driver that holds nothing makes the exchange, and holds nothing after it. -/
theorem Driver.Quiet.exchanged {d : Driver} (hd : d.Quiet) (h : AtOnce cmd line r) :
    ∃ d', d.Exchanged cmd line r d' ∧ d'.Quiet := by
  have hfit : d.tx.len + (wire cmd).length ≤ txBuf := by
    rw [HVec.len, hd.tx, List.length_nil, Nat.zero_add]
    exact h.fits
  have hflight : d.txInFlight = 0 := by rw [hd.inv.idle hd.idle, HVec.len, hd.tx, List.length_nil]
  obtain ⟨hmode, hsent, hrx⟩ := flushed_accept hd.inv hd.idle hfit
  have hhanded : (d.accept cmd hfit).tx.data.drop (d.accept cmd hfit).txInFlight = wire cmd := by
    show (d.tx.data ++ wire cmd).drop d.txInFlight = wire cmd
    rw [hflight, hd.tx, List.drop_zero, List.nil_append]
  have hneed := Driver.poll_needTx (accept_inFlight_lt hd.inv hd.idle hfit)
  have hack := (d.accept cmd hfit).ackTx_handout
  rw [hhanded] at hneed hack
  have hinv₁ := Driver.inv_step hd.inv (Driver.step_submit (Driver.submit_accept hd.idle hfit))
  have hinv₃ := Driver.inv_step (Driver.inv_step hinv₁ (Driver.step_poll hneed))
    (Driver.step_ackTx hack)
  generalize (d.accept cmd hfit).flushed = d₃ at hmode hsent hrx hack hinv₃
  have hstate : d₃.state = .awaiting cmd.awaitKind := by
    rw [← Driver.mode_state, hmode, sentMode, if_pos hd.tx]
  have hempty : d₃.rx.data = [] := by rw [hrx, hd.rx]
  have hidle : d₃.poll = .ok (.idle, d₃) := Driver.poll_of_no_line hsent (by rw [hempty]; rfl)
  have hroom : d₃.rx.len + (line ++ [cr, lf]).length ≤ rxBuf := by
    rw [HVec.len, hempty]
    exact (Nat.zero_add _).trans_le (h.chunk.property.trans (by decide))
  have hpush := Driver.pushRx_of_le hroom
  have hinv₄ := Driver.inv_step hinv₃ (Driver.step_pushRx hpush)
  generalize hd₄ : ({ d₃ with rx := d₃.rx.append _ hroom } : Driver) = d₄ at hpush hinv₄
  have hlen : line.length ≤ lineBufLength := (Nat.le_of_add_right_le h.short).trans (by decide)
  have hnext : driverMachine.next d₄.mode d₄.rx.data = .ok (some (.response r), .idle, []) := by
    have hdata : d₄.rx.data = line ++ cr :: lf :: [] := by
      rw [← hd₄, HVec.data_append, hempty, List.nil_append]
    rw [hdata]
    refine next_of_take h.oneLine (react_of_isReply h.reply hlen ?_) []
    rw [← hd₄]
    exact hstate
  obtain ⟨d', hpoll, hmode', hrx', hsame⟩ :=
    Driver.poll_of_next (by rw [← hd₄]; exact hsent) hnext
  have hinv' := Driver.inv_step hinv₄ (Driver.step_poll hpoll)
  refine ⟨d', ⟨Driver.submit_accept hd.idle hfit, hneed, hack, hidle, hpush, hpoll⟩, hinv', ?_, ?_,
    hrx'⟩
  · rw [← Driver.mode_state, hmode']
    rfl
  · rw [hsame.tx, ← hd₄]
    exact (hinv₃.awaiting _ hstate).1

/-! ### The blocking radio -/

/-- A command method whose command is answered at once. -/
theorem Std.Radio.command_of_exchanged {α : Type} {radio : Radio} {d' : Driver} {timeout : Nat}
    {want : Response → Option (Except Error α)} {out : Except Error α}
    {writes : List (Except ErrorKind Unit)} {reads : List (Except ErrorKind Chunk)}
    {start now : Nat} {clock : List Nat} (h : AtOnce cmd line r)
    (hd : radio.driver.Exchanged cmd line r d') (hwant : want r = some out)
    (hport : radio.port = ⟨.ok () :: writes, .ok h.chunk :: reads, start :: now :: clock⟩)
    (hnow : now < start + timeout) :
    radio.command cmd timeout want = .ok (out, ⟨d', ⟨writes, reads, clock⟩, radio.events⟩) ∧
      radio.commandCalls cmd timeout want = exchangeCalls cmd line r := by
  obtain ⟨driver, port, events⟩ := radio
  obtain @⟨d₁, d₂, d₃, d₄, hsubmit, hneed, hack, hidle, hpush, hresponse⟩ := hd
  obtain rfl : port = _ := hport
  -- the command is written, then the line is read and pushed, then the response is polled
  have hloop : pollLoop want d₁ (.ok () :: writes) = .ok ⟨.idle, [], d₃, writes⟩ := by
    rw [pollLoop_of_written hneed, hack]
    exact pollLoop_of_idle hidle
  have hturn : (turn (start + timeout)).run d₃ ⟨writes, .ok h.chunk :: reads, now :: clock⟩ =
      .ok (.ok (), d₄, ⟨writes, reads, clock⟩) := by
    show readOnce _ d₃ _ = _
    rw [readOnce_of_push hpush, if_neg (Nat.not_le_of_lt hnow)]
  have hloop' : pollLoop want d₄ writes = .ok ⟨.wanted out, [], d', writes⟩ := by
    rw [pollLoop_of_response hresponse, hwant]
  have hpump : pump (turn (start + timeout)) .io want d₁
      ⟨.ok () :: writes, .ok h.chunk :: reads, now :: clock⟩ =
      .ok ⟨out, [], d', ⟨writes, reads, clock⟩⟩ := by
    have hrest : pump (turn (start + timeout)) .io want d₄ ⟨writes, reads, clock⟩ =
        .ok ⟨out, [], d', ⟨writes, reads, clock⟩⟩ := pump_of_wanted hloop'
    rw [pump_of_turn hloop hturn, hrest]
    rfl
  -- the calls are those of the same three steps
  have hcalls : pumpCalls (turn (start + timeout)) readCalls want d₁
      ⟨.ok () :: writes, .ok h.chunk :: reads, now :: clock⟩ = (exchangeCalls cmd line r).tail := by
    have hreads : readCalls d₃ ⟨writes, .ok h.chunk :: reads, now :: clock⟩ =
        [.pushRx (line ++ [cr, lf]) (.ok (line ++ [cr, lf]).length)] := by
      unfold readCalls AtOnce.chunk
      dsimp only
      rw [hpush]
    have hrest : pumpCalls (turn (start + timeout)) readCalls want d₄ ⟨writes, reads, clock⟩ =
        pollCalls want d₄ writes := pumpCalls_of_stop hloop' nofun
    rw [pumpCalls_of_turn hloop rfl hturn, hreads, hrest, pollCalls_of_response hresponse, hwant,
      pollCalls_of_written hneed hack, pollCalls_of_idle hidle]
    rfl
  have hstart : deadlineAfter timeout
      (⟨.ok () :: writes, .ok h.chunk :: reads, start :: now :: clock⟩ : Port) =
        .ok (start + timeout, ⟨.ok () :: writes, .ok h.chunk :: reads, now :: clock⟩) := rfl
  constructor
  · rw [command_eq, submitThenPump_accepted hsubmit hstart, hpump]
    show Except.ok (out, (⟨d', _, events ++ []⟩ : Radio)) = _
    rw [List.append_nil]
  · exact (submitCalls_of_accepted hsubmit hstart).trans
      (congrArg (Call.submit cmd (.ok ()) :: ·) hcalls)

end

end Rylr998
