import Rylr998.Core.Machine
import Rylr998.Core.Equiv.Encode

/-!
# What each operation of the driver does

One specification for each operation of `Driver`. `submit` queues `wire cmd` or changes next to
nothing; `pushRx` appends to `rx`; `ackTx` drops bytes of `tx` and never fails. `poll` hands out
what there is to send, and otherwise is one step of `driverMachine` on `rx` (`poll_of_next`,
`poll_of_next_error`); it leaves the sending side alone (`Driver.SameTx`).

`Driver.step` gives the operations one type, and `step_spec` says once what a step can do.
-/

namespace Rylr998

open Framing

/-- The vector with `xs` at its end. -/
def HVec.append {α : Type} {cap : Nat} (v : HVec α cap) (xs : List α)
    (h : v.len + xs.length ≤ cap) : HVec α cap :=
  ⟨v.data ++ xs, by simpa [len] using h⟩

@[simp] theorem HVec.data_append {α : Type} {cap : Nat} (v : HVec α cap) (xs : List α)
    (h : v.len + xs.length ≤ cap) : (v.append xs h).data = v.data ++ xs := rfl

theorem HVec.extendFromSlice_of_le {α : Type} {cap : Nat} {v : HVec α cap} {xs : List α}
    (h : v.len + xs.length ≤ cap) : v.extendFromSlice xs = some (v.append xs h) := by
  rw [HVec.extendFromSlice_eq_some, HVec.data_append]

namespace Driver

/-- The mode of a driver. -/
def mode (d : Driver) : Mode := ⟨d.state, d.awaitingReadyAsOk⟩

@[simp] theorem mode_state (d : Driver) : d.mode.state = d.state := rfl

@[simp] theorem mode_awaitingReadyAsOk (d : Driver) :
    d.mode.awaitingReadyAsOk = d.awaitingReadyAsOk := rfl

@[simp] theorem onBuffers_ok_bind {α β : Type} (a : α) (f : α → Except Fault β) :
    (onBuffers (.ok a) >>= f) = f a := rfl

/-! ### `submit` -/

theorem submit_busy {d : Driver} (cmd : Command) (h : d.state ≠ .idle) :
    d.submit cmd = .ok (.error .busy, d) := by
  unfold submit
  rw [if_pos h]
  rfl

/-- A command is accepted only while nothing is in flight. -/
theorem idle_of_submit {d d' : Driver} {cmd : Command} (h : d.submit cmd = .ok (.ok (), d')) :
    d.state = .idle := by
  by_contra hbusy
  cases (submit_busy cmd hbusy).symm.trans h

/-- The driver after it has accepted `cmd`. -/
def accept (d : Driver) (cmd : Command) (h : d.tx.len + (wire cmd).length ≤ txBuf) : Driver :=
  { d with
    tx := d.tx.append (wire cmd) h
    state := .sendingTx
    awaitingReadyAsOk := decide (cmd = .factoryReset)
    pendingKind := some cmd.awaitKind }

theorem submit_accept {d : Driver} {cmd : Command} (hidle : d.state = .idle)
    (h : d.tx.len + (wire cmd).length ≤ txBuf) : d.submit cmd = .ok (.ok (), d.accept cmd h) := by
  unfold submit
  rw [if_neg (not_not.mpr hidle), encode_of_le (by simp; omega)]
  show onBuffers (sliceTo _ _) >>= _ = _
  rw [sliceTo_of_le (by simp), List.take_left, onBuffers_ok_bind, HVec.extendFromSlice_of_le h]
  rfl

theorem submit_overflow {d : Driver} {cmd : Command} (hidle : d.state = .idle)
    (h : txBuf < d.tx.len + (wire cmd).length) :
    d.submit cmd =
      .ok (.error .txOverflow, { d with awaitingReadyAsOk := decide (cmd = .factoryReset) }) := by
  unfold submit
  rw [if_neg (not_not.mpr hidle)]
  by_cases hfit : (wire cmd).length ≤ txBuf
  · rw [encode_of_le (by simpa using hfit)]
    show onBuffers (sliceTo _ _) >>= _ = _
    rw [sliceTo_of_le (by simp), List.take_left, onBuffers_ok_bind,
      HVec.extendFromSlice_eq_none.mpr h]
    rfl
  · have hlt : (List.replicate txBuf (0 : UInt8)).length < (wire cmd).length := by simpa using hfit
    obtain ⟨buf, hbuf⟩ := encode_of_lt hlt
    rw [hbuf]
    rfl

/-- When `submit` accepts a command: nothing is in flight, and its bytes fit. -/
theorem submit_ok_inv {d d' : Driver} {cmd : Command} (h : d.submit cmd = .ok (.ok (), d')) :
    d.state = .idle ∧ ∃ hfit, d' = d.accept cmd hfit := by
  have hidle := idle_of_submit h
  rcases Nat.lt_or_ge txBuf (d.tx.len + (wire cmd).length) with hfull | hfit
  · cases (submit_overflow hidle hfull).symm.trans h
  · cases (submit_accept hidle hfit).symm.trans h
    exact ⟨hidle, hfit, rfl⟩

/-- When `submit` returns an error: the driver is as it was, or only the flag has changed. -/
theorem submit_error_inv {d d' : Driver} {cmd : Command} {e : Error}
    (h : d.submit cmd = .ok (.error e, d')) :
    e = .busy ∧ d.state ≠ .idle ∧ d' = d ∨
      e = .txOverflow ∧ d.state = .idle ∧ txBuf < d.tx.len + (wire cmd).length ∧
        d' = { d with awaitingReadyAsOk := decide (cmd = .factoryReset) } := by
  by_cases hidle : d.state = .idle
  · by_cases hfit : d.tx.len + (wire cmd).length ≤ txBuf
    · cases (submit_accept hidle hfit).symm.trans h
    · rw [Nat.not_le] at hfit
      cases (submit_overflow hidle hfit).symm.trans h
      exact Or.inr ⟨rfl, hidle, hfit, rfl⟩
  · cases (submit_busy cmd hidle).symm.trans h
    exact Or.inl ⟨rfl, hidle, rfl⟩

/-! ### `pushRx` -/

theorem pushRx_of_le {d : Driver} {bytes : List UInt8} (h : d.rx.len + bytes.length ≤ rxBuf) :
    d.pushRx bytes = .ok (.ok bytes.length, { d with rx := d.rx.append bytes h }) := by
  unfold pushRx
  rw [checkedSub_of_le (by omega)]
  show (if rxBuf - d.rx.len < bytes.length then _ else _) = _
  rw [if_neg (by omega), HVec.extendFromSlice_of_le h]
  rfl

/-- What does not fit is cut off. -/
theorem pushRx_of_lt {d : Driver} {bytes : List UInt8} (h : rxBuf < d.rx.len + bytes.length) :
    ∃ rx, d.pushRx bytes = .ok (.error .rxOverflow, { d with rx }) ∧
      rx.data = d.rx.data ++ bytes.take (rxBuf - d.rx.len) := by
  have hle : d.rx.len ≤ rxBuf := d.rx.length_le
  have hfit : d.rx.len + (bytes.take (rxBuf - d.rx.len)).length ≤ rxBuf := by simp; omega
  refine ⟨d.rx.append _ hfit, ?_, rfl⟩
  unfold pushRx
  rw [checkedSub_of_le hle]
  show (if rxBuf - d.rx.len < bytes.length then _ else _) = _
  rw [if_pos (by omega), sliceTo_of_le (by omega)]
  show Except.ok (_, { d with rx := (d.rx.extendFromSlice _).getD d.rx }) = _
  rw [HVec.extendFromSlice_of_le hfit]
  rfl

/-! ### `ackTx` -/

/-- The driver goes on to wait for the reply once everything is sent. -/
def advance (d : Driver) : Driver :=
  if d.tx.isEmpty ∧ d.state = .sendingTx then
    match d.pendingKind with
    | some kind => { d with state := .awaiting kind, pendingKind := none }
    | none => d
  else d

theorem advance_of_pending {d : Driver} {kind : AwaitKind} (htx : d.tx.data = [])
    (hstate : d.state = .sendingTx) (hkind : d.pendingKind = some kind) :
    d.advance = { d with state := .awaiting kind, pendingKind := none } := by
  rw [advance, if_pos ⟨HVec.isEmpty_iff.mpr htx, hstate⟩, hkind]

theorem advance_of_not {d : Driver} (h : ¬ (d.tx.data = [] ∧ d.state = .sendingTx)) :
    d.advance = d := by
  rw [advance, if_neg (by rwa [HVec.isEmpty_iff])]

/-- Only the command slot changes. -/
theorem advance_same (d : Driver) : d.advance.tx = d.tx ∧ d.advance.txInFlight = d.txInFlight ∧
    d.advance.rx = d.rx ∧ d.advance.awaitingReadyAsOk = d.awaitingReadyAsOk := by
  unfold advance
  split_ifs
  · cases d.pendingKind <;> exact ⟨rfl, rfl, rfl, rfl⟩
  · exact ⟨rfl, rfl, rfl, rfl⟩

/-- The number of bytes that `ackTx n` drops. -/
def ackCount (d : Driver) (n : Nat) : Nat := min n d.txInFlight

/-- The driver without the bytes that `ackTx n` acknowledges. -/
def dropSent (d : Driver) (n : Nat) : Driver :=
  { d with tx := d.tx.dropFront (d.ackCount n), txInFlight := d.txInFlight - d.ackCount n }

/-- `ackTx` drops acknowledged bytes, as many as are in flight; it never fails. -/
theorem ackTx_eq (d : Driver) (n : Nat) (h : d.txInFlight ≤ d.tx.len) :
    d.ackTx n = .ok (d.dropSent n).advance := by
  have hk : d.ackCount n ≤ d.txInFlight := Nat.min_le_right _ _
  -- the guarded shift drops the first bytes: where the guard fails there are none to drop
  have htx : (if 0 < d.ackCount n ∧ d.ackCount n ≤ d.tx.len then do
      let tx ← d.tx.copyWithin (d.ackCount n) d.tx.len 0
      let rest ← checkedSub d.tx.len (d.ackCount n)
      return tx.truncate rest
    else .ok d.tx : Except Panic (HVec UInt8 txBuf)) = .ok (d.tx.dropFront (d.ackCount n)) := by
    split_ifs with hc
    · rw [checkedSub_of_le hc.2]
      have hshift := HVec.copyWithin_truncate hc.2
      cases hcw : d.tx.copyWithin (d.ackCount n) d.tx.len 0 with
      | error p => rw [hcw] at hshift; cases hshift
      | ok w =>
        rw [hcw] at hshift
        exact hshift
    · have : d.ackCount n = 0 := by omega
      rw [this]
      rfl
  unfold ackTx
  dsimp only
  rw [show min n d.txInFlight = d.ackCount n from rfl, htx]
  show onBuffers (checkedSub d.txInFlight (d.ackCount n)) >>= _ = _
  rw [checkedSub_of_le hk]
  unfold advance dropSent
  show (if _ ∧ _ then _ else _) = _
  dsimp only
  split_ifs with hc
  · cases d.pendingKind <;> rfl
  · rfl

/-! ### Lines of the receive buffer -/

/-- `next_line_end` finds the first line. -/
theorem nextLineEnd_eq (d : Driver) :
    d.nextLineEnd = (crlf.splitLine d.rx.data).map fun p => p.1.length := by
  unfold nextLineEnd
  induction d.rx.data with
  | nil => rfl
  | cons a s ih =>
    rw [Terminator.splitLine, List.findIdx?_cons]
    -- `splitLine` and `position` stop at the same byte
    by_cases ha : a = cr
    · subst ha
      simp only [beq_self_eq_true, ↓reduceIte, crlf_first, crlf_second, Nat.zero_add,
        List.getElem?_cons_succ, List.head?_eq_getElem?]
      split_ifs <;> rfl
    · rw [if_neg (by simpa using ha), if_neg (by simpa using ha)]
      simp only [Option.map_map] at ih ⊢
      cases hi : s.findIdx? (· == cr) with
      | none =>
        rw [hi] at ih
        cases hs : crlf.splitLine s with
        | none => rfl
        | some p => rw [hs] at ih; cases ih
      | some r =>
        rw [hi] at ih
        simp only [Option.map_some, List.getElem?_cons_succ] at ih ⊢
        cases hs : crlf.splitLine s <;> rw [hs] at ih <;> split_ifs at ih ⊢ with hlf
        · cases ih
        · rfl
        · simpa using ih
        · cases ih

/-- `drain_rx_line` takes the first line off. -/
theorem drainRxLine_line {d : Driver} {l r : List UInt8} (h : d.rx.data = l ++ cr :: lf :: r) :
    d.drainRxLine l.length = .ok { d with rx := d.rx.dropFront (l.length + 2) } := by
  have hle : l.length + 2 ≤ d.rx.len := by rw [HVec.len, h]; simp
  have hshift := HVec.copyWithin_truncate hle
  unfold drainRxLine
  cases hcw : d.rx.copyWithin (l.length + 2) d.rx.len 0 with
  | error p => rw [hcw] at hshift; cases hshift
  | ok w =>
    rw [hcw] at hshift
    dsimp only
    rw [hcw, checkedSub_of_le hle]
    exact congrArg (Except.map fun rx => { d with rx }) hshift

theorem dropFront_line {d : Driver} {l r : List UInt8} (h : d.rx.data = l ++ cr :: lf :: r) :
    (d.rx.dropFront (l.length + 2)).data = r := by
  rw [HVec.data_dropFront, h, show l ++ cr :: lf :: r = (l ++ [cr, lf]) ++ r by simp]
  exact List.drop_left' (by simp)

/-! ### `poll` -/

theorem poll_needTx [Target] {d : Driver} (h : d.txInFlight < d.tx.len) :
    d.poll = .ok (.needTx (d.tx.data.drop d.txInFlight), { d with txInFlight := d.tx.len }) := by
  rw [poll, if_pos h, sliceFrom_of_le (Nat.le_of_lt h)]
  rfl

theorem poll_of_no_line [Target] {d : Driver} (htx : d.tx.len ≤ d.txInFlight)
    (h : crlf.splitLine d.rx.data = none) : d.poll = .ok (.idle, d) := by
  rw [poll, if_neg (by omega), nextLineEnd_eq, h]
  simp

/-- The driver with the line `l` in `line_buf`. -/
def copyLine (d : Driver) (l : List UInt8) : Driver :=
  { d with lineBuf := d.lineBuf.load l, lineBufLen := l.length }

/-- The driver without the line `l` at the front of `rx`. -/
def takeLine (d : Driver) (l : List UInt8) : Driver :=
  { d.copyLine l with rx := d.rx.dropFront (l.length + 2) }

theorem copyLine_drainRxLine {d : Driver} {l r : List UInt8} (h : d.rx.data = l ++ cr :: lf :: r) :
    (d.copyLine l).drainRxLine l.length = .ok (d.takeLine l) :=
  drainRxLine_line (d := d.copyLine l) h

/-- `poll` on a complete line. -/
theorem poll_of_line [Target] {d : Driver} {l r : List UInt8} (htx : d.tx.len ≤ d.txInFlight)
    (hl : cr ∉ l) (h : d.rx.data = l ++ cr :: lf :: r) :
    d.poll =
      if lineBufLength < l.length then .error (.buffers .outOfBounds)
      else if d.awaitingReadyAsOk && startsWith l (utf8 "+RESET") then poll (d.takeLine l)
      else if isEventLine l then (d.copyLine l).pollEvent l l.length
      else if d.mode.matches l then (d.copyLine l).pollResponse l.length
      else .ok (.idle, d.copyLine l) := by
  have hne : d.rx.isEmpty = false := by simp [HVec.isEmpty, h]
  have hsplit : crlf.splitLine d.rx.data = some (l, r) := by
    rw [h]; exact crlf.splitLine_line hl r
  have hslice : sliceTo d.rx.data l.length = .ok l := by
    rw [sliceTo_of_le (by simp [h]), h, List.take_left]
  rw [poll, if_neg (by omega), hne, nextLineEnd_eq, hsplit]
  simp only [Bool.false_eq_true, ↓reduceIte, Option.map_some, hslice]
  by_cases hlong : lineBufLength < l.length
  · have hcopy : (.ok l >>= d.lineBuf.copyTo l.length : Except Panic (ByteArr lineBufLength)) =
        .error .outOfBounds := ByteArr.copyTo_of_lt hlong
    rw [if_pos hlong, hcopy]
  rw [if_neg hlong]
  have hcopy : (.ok l >>= d.lineBuf.copyTo l.length : Except Panic (ByteArr lineBufLength)) =
      .ok (d.lineBuf.load l) := ByteArr.copyTo_length (by omega)
  rw [hcopy]
  dsimp only
  rw [ByteArr.sliceTo_load (by omega)]
  dsimp only
  by_cases hreset : (d.awaitingReadyAsOk && startsWith l (utf8 "+RESET")) = true
  · rw [if_pos hreset, if_pos hreset]
    split
    · next he => cases he.symm.trans (copyLine_drainRxLine h)
    · next he =>
      rw [show _ = d.takeLine l from Except.ok.inj (he.symm.trans (copyLine_drainRxLine h))]
  · rw [if_neg hreset, if_neg hreset]
    rfl

/-- What `poll` does with an event line. -/
theorem pollEvent_line [Target] {d : Driver} {l r : List UInt8} (hlen : l.length ≤ lineBufLength)
    (h : d.rx.data = l ++ cr :: lf :: r) :
    (d.copyLine l).pollEvent l l.length =
      if d.awaitingReadyAsOk && l = utf8 "+READY" then
        .ok (.response .ok, { d.takeLine l with awaitingReadyAsOk := false, state := .idle })
      else
        match (parseEvent l).run with
        | .error p => .error (.parser p)
        | .ok (.ok e) => .ok (.event e, d.takeLine l)
        | .ok (.error _) => .ok (.idle, d.takeLine l) := by
  have hread : sliceTo (d.takeLine l).lineBuf.data (d.takeLine l).lineBufLen = .ok l :=
    ByteArr.sliceTo_load hlen
  unfold pollEvent
  rw [copyLine_drainRxLine h]
  show (if d.awaitingReadyAsOk && l = utf8 "+READY" then _ else _) = _
  split_ifs with hready
  · rfl
  · rw [hread]
    show inParser (parseEvent l).run >>= _ = _
    rcases (parseEvent l).run with p | e | e <;> rfl

/-- What `poll` does with the awaited reply. -/
theorem pollResponse_line {d : Driver} {l r : List UInt8} (hlen : l.length ≤ lineBufLength)
    (h : d.rx.data = l ++ cr :: lf :: r) :
    (d.copyLine l).pollResponse l.length =
      .ok (pollOf (replyOutput l),
        { d.takeLine l with awaitingReadyAsOk := false, state := .idle }) := by
  have hread : sliceTo (d.takeLine l).lineBuf.data (d.takeLine l).lineBufLen = .ok l :=
    ByteArr.sliceTo_load hlen
  unfold pollResponse replyOutput
  rw [copyLine_drainRxLine h]
  show onBuffers (sliceTo (d.takeLine l).lineBuf.data (d.takeLine l).lineBufLen) >>= _ = _
  rw [hread, onBuffers_ok_bind]
  rcases parseResponse l with e | r <;> rfl

/-- The sending side of the driver is the same. -/
structure SameTx (d d' : Driver) : Prop where
  tx : d'.tx = d.tx
  txInFlight : d'.txInFlight = d.txInFlight
  pendingKind : d'.pendingKind = d.pendingKind

theorem SameTx.refl (d : Driver) : SameTx d d := ⟨rfl, rfl, rfl⟩

theorem SameTx.trans {d₁ d₂ d₃ : Driver} (h : SameTx d₁ d₂) (h' : SameTx d₂ d₃) : SameTx d₁ d₃ :=
  ⟨h'.tx.trans h.tx, h'.txInFlight.trans h.txInFlight, h'.pendingKind.trans h.pendingKind⟩

theorem SameTx.tx_le {d d' : Driver} (h : SameTx d d') (htx : d.tx.len ≤ d.txInFlight) :
    d'.tx.len ≤ d'.txInFlight := by
  rw [h.tx, h.txInFlight]
  exact htx

/-- What `push_rx` can do: the bytes are appended, or as many of them as fit. -/
theorem pushRx_inv {d d' : Driver} {bytes : List UInt8} {r : Except Error Nat}
    (h : d.pushRx bytes = .ok (r, d')) : d'.mode = d.mode ∧ SameTx d d' ∧
      ((d.rx.len + bytes.length ≤ rxBuf ∧ r = .ok bytes.length ∧
          d'.rx.data = d.rx.data ++ bytes) ∨
        (rxBuf < d.rx.len + bytes.length ∧ r = .error .rxOverflow ∧
          d'.rx.data = d.rx.data ++ bytes.take (rxBuf - d.rx.len))) := by
  rcases Nat.lt_or_ge rxBuf (d.rx.len + bytes.length) with hfull | hfit
  · obtain ⟨rx, hpush, hrx⟩ := pushRx_of_lt hfull
    cases hpush.symm.trans h
    exact ⟨rfl, ⟨rfl, rfl, rfl⟩, Or.inr ⟨hfull, rfl, hrx⟩⟩
  · have hpush := pushRx_of_le hfit
    cases hpush.symm.trans h
    exact ⟨rfl, ⟨rfl, rfl, rfl⟩, Or.inl ⟨hfit, rfl, rfl⟩⟩

/-- With nothing to send, `poll` is a step of `driverMachine`: it fails when the step does, and
otherwise returns the step's output and leaves the driver in its mode with its bytes. -/
def PollIsNext [Target] (d : Driver) : Prop :=
  match driverMachine.next d.mode d.rx.data with
  | .error f => d.poll = .error f
  | .ok (o, m, buf) =>
    ∃ d', d.poll = .ok (pollOf o, d') ∧ d'.mode = m ∧ d'.rx.data = buf ∧ SameTx d d'

theorem pollIsNext [Target] (d : Driver) (htx : d.tx.len ≤ d.txInFlight) : PollIsNext d := by
  -- by induction on the bytes left: only `+RESET` lines are passed on the way
  induction hn : d.rx.len using Nat.strong_induction_on generalizing d with
  | _ n ih =>
  subst hn
  cases hs : crlf.splitLine d.rx.data with
  | none =>
    rw [PollIsNext, driverMachine.next_stuck (Or.inl hs)]
    exact ⟨d, poll_of_no_line htx hs, rfl, rfl, .refl d⟩
  | some p =>
    obtain ⟨l, r⟩ := p
    obtain ⟨hl, hrx⟩ := crlf.splitLine_eq_some_iff.mp hs
    simp only [crlf_first, crlf_second] at hl hrx
    have hrest : (d.takeLine l).rx.data = r := dropFront_line hrx
    have hmode : (d.takeLine l).mode = d.mode := rfl
    have hsame : SameTx d (d.takeLine l) := ⟨rfl, rfl, rfl⟩
    have hpoll := poll_of_line htx hl hrx
    by_cases hlong : lineBufLength < l.length
    · rw [if_pos hlong] at hpoll
      rw [PollIsNext, hrx, next_of_fault hl (react_of_long hlong)]
      exact hpoll
    have hlen : l.length ≤ lineBufLength := by omega
    rw [if_neg hlong] at hpoll
    by_cases hreset : (d.awaitingReadyAsOk && startsWith l (utf8 "+RESET")) = true
    · -- the line is skipped: the rest of the buffer decides
      rw [if_pos hreset] at hpoll
      have hrec := ih (d.takeLine l).rx.len (by rw [HVec.len, hrest, HVec.len, hrx]; simp; omega)
        (d.takeLine l) htx rfl
      rw [PollIsNext, hmode, hrest] at hrec
      rw [PollIsNext, hrx, next_of_skip hl (react_of_reset hlen hreset), hpoll]
      cases hn : driverMachine.next d.mode r with
      | error f => rw [hn] at hrec; exact hrec
      | ok p =>
        rw [hn] at hrec
        obtain ⟨d', h₁, h₂, h₃, h₄⟩ := hrec
        exact ⟨d', h₁, h₂, h₃, hsame.trans h₄⟩
    rw [if_neg hreset] at hpoll
    -- the line is taken, as the awaited `+READY` or as an event
    by_cases hevent : isEventLine l = true
    · rw [if_pos hevent, pollEvent_line hlen hrx] at hpoll
      have hreact := react_of_event (m := d.mode) hlen hreset hevent
      by_cases hready : (d.awaitingReadyAsOk && l = utf8 "+READY") = true
      · rw [if_pos hready] at hpoll
        rw [mode_awaitingReadyAsOk, if_pos hready] at hreact
        rw [PollIsNext, hrx, next_of_take hl hreact]
        exact ⟨_, hpoll, rfl, hrest, ⟨rfl, rfl, rfl⟩⟩
      rw [if_neg hready] at hpoll
      rw [mode_awaitingReadyAsOk, if_neg hready, reactEvent] at hreact
      rcases hparse : (parseEvent l).run with p | e | e
      all_goals rw [hparse] at hpoll hreact
      · rw [PollIsNext, hrx, next_of_fault hl hreact]
        exact hpoll
      · rw [PollIsNext, hrx, next_of_take hl hreact]
        exact ⟨_, hpoll, rfl, hrest, hsame⟩
      · rw [PollIsNext, hrx, next_of_take hl hreact]
        exact ⟨_, hpoll, rfl, hrest, hsame⟩
    rw [if_neg hevent] at hpoll
    -- the line is taken as the reply, or stays
    by_cases hmatches : d.mode.matches l = true
    · rw [if_pos hmatches, pollResponse_line hlen hrx] at hpoll
      rw [PollIsNext, hrx, next_of_take hl (react_of_matches hlen hreset hevent hmatches)]
      exact ⟨_, hpoll, rfl, hrest, ⟨rfl, rfl, rfl⟩⟩
    · rw [if_neg hmatches] at hpoll
      rw [PollIsNext, hrx, next_of_keep hl (react_of_not_matches hlen hreset hevent hmatches)]
      exact ⟨_, hpoll, rfl, hrx, ⟨rfl, rfl, rfl⟩⟩

theorem poll_of_next [Target] {d : Driver} (htx : d.tx.len ≤ d.txInFlight) {o : Option Output}
    {m : Mode} {buf : List UInt8} (h : driverMachine.next d.mode d.rx.data = .ok (o, m, buf)) :
    ∃ d', d.poll = .ok (pollOf o, d') ∧ d'.mode = m ∧ d'.rx.data = buf ∧ SameTx d d' := by
  have := pollIsNext d htx
  rwa [PollIsNext, h] at this

theorem poll_of_next_error [Target] {d : Driver} (htx : d.tx.len ≤ d.txInFlight) {f : Fault}
    (h : driverMachine.next d.mode d.rx.data = .error f) : d.poll = .error f := by
  have := pollIsNext d htx
  rwa [PollIsNext, h] at this

/-- What `poll` can do: hand out what there is to send, or make a step of `driverMachine`. -/
theorem poll_inv [Target] {d d' : Driver} {p : Poll} (h : d.poll = .ok (p, d')) :
    (d.txInFlight < d.tx.len ∧ p = .needTx (d.tx.data.drop d.txInFlight) ∧
        d' = { d with txInFlight := d.tx.len }) ∨
      (d.tx.len ≤ d.txInFlight ∧ ∃ o, p = pollOf o ∧
        driverMachine.next d.mode d.rx.data = .ok (o, d'.mode, d'.rx.data) ∧ SameTx d d') := by
  rcases Nat.lt_or_ge d.txInFlight d.tx.len with htx | htx
  · rw [poll_needTx htx] at h
    cases h
    exact Or.inl ⟨htx, rfl, rfl⟩
  · cases hn : driverMachine.next d.mode d.rx.data with
    | error f => rw [poll_of_next_error htx hn] at h; cases h
    | ok q =>
      obtain ⟨o, m, buf⟩ := q
      obtain ⟨d₁, hp, rfl, rfl, hsame⟩ := poll_of_next htx hn
      cases hp.symm.trans h
      exact Or.inr ⟨htx, o, rfl, rfl, hsame⟩

/-- When `poll` panics, so does the step of `driverMachine`. -/
theorem poll_error_inv [Target] {d : Driver} {f : Fault} (h : d.poll = .error f) :
    d.tx.len ≤ d.txInFlight ∧ driverMachine.next d.mode d.rx.data = .error f := by
  rcases Nat.lt_or_ge d.txInFlight d.tx.len with htx | htx
  · rw [poll_needTx htx] at h
    cases h
  · refine ⟨htx, ?_⟩
    cases hn : driverMachine.next d.mode d.rx.data with
    | error f' => rw [poll_of_next_error htx hn] at h; rw [Except.error.inj h]
    | ok q =>
      obtain ⟨d₁, hp, -⟩ := poll_of_next htx hn
      cases hp.symm.trans h

end Driver

end Rylr998
