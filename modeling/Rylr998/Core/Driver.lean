import Rylr998.Core.Decode
import Rylr998.Core.Encode

/-!
# The driver

`Driver` turns protocol traffic into a sequence of `Poll` steps. It does no I/O: callers `submit`
commands, feed received bytes with `pushRx`, `poll`, send what `Poll.needTx` hands out and
acknowledge it with `ackTx`.

An operation returns its result and the next state, or the `Fault` it panics with; `Fault` tells a
panic on the driver's own buffers from one inside the line parser.
-/

namespace Rylr998

/-- `RX_BUF` -/
def rxBuf : Nat := 512

/-- `TX_BUF` -/
def txBuf : Nat := 512

/-- The length of `line_buf`. -/
def lineBufLength : Nat := 288

/-- `\r` -/
def cr : UInt8 := 13

/-- `\n` -/
def lf : UInt8 := 10

/-- The key of a query. -/
inductive QueryKey where
  | address
  | networkId
  | band
  | parameters
  | crfop
  | uid
  | version
  | cpin
  deriving DecidableEq

/-- What an awaited reply looks like. -/
inductive AwaitKind where
  /-- Setter, ping or factory reset: `+OK` or `+ERR`. -/
  | ack
  /-- Query: `+<KEY>=…` or `+ERR`. -/
  | query (key : QueryKey)
  deriving DecidableEq

/-- The state of the command slot. -/
inductive State where
  | idle
  /-- A command has been encoded and not all of it is acknowledged. -/
  | sendingTx
  /-- All bytes are acknowledged; the matching response line is awaited. -/
  | awaiting (kind : AwaitKind)
  deriving DecidableEq

/-- `Driver` -/
@[ext] structure Driver where
  rx : HVec UInt8 rxBuf
  tx : HVec UInt8 txBuf
  /-- Bytes handed out by `Poll.needTx` and not acknowledged yet. -/
  txInFlight : Nat
  state : State
  /-- Does the next `+READY` resolve the command as `Response.ok`? -/
  awaitingReadyAsOk : Bool
  pendingKind : Option AwaitKind
  /-- Scratch space: `poll` copies a line here before it drains `rx`. -/
  lineBuf : ByteArr lineBufLength
  lineBufLen : Nat
  deriving DecidableEq

/-- Why a driver operation panics. -/
inductive Fault where
  /-- On the driver's own buffers. -/
  | buffers (p : Panic)
  /-- In the line parser. -/
  | parser (p : Panic)
  deriving DecidableEq

/-- A computation on the driver's buffers. -/
def onBuffers {α : Type} (x : Except Panic α) : Except Fault α := x.mapError .buffers

/-- A computation of the line parser. -/
def inParser {α : Type} (x : Except Panic α) : Except Fault α := x.mapError .parser

/-- The kind of reply a command waits for. -/
def Command.awaitKind : Command → AwaitKind
  | .getAddress => .query .address
  | .getNetworkId => .query .networkId
  | .getBand => .query .band
  | .getParameters => .query .parameters
  | .getCrfop => .query .crfop
  | .getUid => .query .uid
  | .getVersion => .query .version
  | .getCpin => .query .cpin
  | _ => .ack

namespace Driver

/-- `Driver::new` -/
def new : Driver where
  rx := .new
  tx := .new
  txInFlight := 0
  state := .idle
  awaitingReadyAsOk := false
  pendingKind := none
  lineBuf := .zeroed
  lineBufLen := 0

/-- `Driver::submit` -/
def submit (d : Driver) (cmd : Command) : Except Fault (Except Error Unit × Driver) := do
  if d.state ≠ .idle then
    return (.error .busy, d)
  let kind := cmd.awaitKind
  -- the flag is set before `?` can return: a refused factory reset leaves it set
  let d := { d with awaitingReadyAsOk := decide (cmd = .factoryReset) }
  match ← onBuffers (encode cmd (List.replicate txBuf 0)) with
  | (.error e, _) => return (.error e, d)
  | (.ok n, tmp) =>
    let line ← onBuffers (sliceTo tmp n)
    match d.tx.extendFromSlice line with
    | none => return (.error .txOverflow, d)
    | some tx => return (.ok (), { d with tx, state := .sendingTx, pendingKind := some kind })

/-- `Driver::push_rx` -/
def pushRx (d : Driver) (bytes : List UInt8) : Except Fault (Except Error Nat × Driver) := do
  let room ← onBuffers (checkedSub rxBuf d.rx.len)
  if room < bytes.length then
    -- accept what fits, then signal overflow
    let head ← onBuffers (sliceTo bytes room)
    return (.error .rxOverflow, { d with rx := (d.rx.extendFromSlice head).getD d.rx })
  return (.ok bytes.length, { d with rx := (d.rx.extendFromSlice bytes).getD d.rx })

/-- `Driver::ack_tx` -/
def ackTx (d : Driver) (n : Nat) : Except Fault Driver := do
  let n := min n d.txInFlight
  let len := d.tx.len
  let shifted : Except Panic (HVec UInt8 txBuf) :=
    -- shift the first `n` bytes off `tx`
    if 0 < n ∧ n ≤ len then do
      let tx ← d.tx.copyWithin n len 0
      let rest ← checkedSub len n
      return tx.truncate rest
    else
      .ok d.tx
  let tx ← onBuffers shifted
  let txInFlight ← onBuffers (checkedSub d.txInFlight n)
  let d := { d with tx, txInFlight }
  -- the last byte of the command is acknowledged
  if d.tx.isEmpty ∧ d.state = .sendingTx then
    match d.pendingKind with
    | some kind => return { d with state := .awaiting kind, pendingKind := none }
    | none => return d
  return d

/-- `Driver::next_line_end` -/
def nextLineEnd (d : Driver) : Option Nat :=
  -- only the first `\r` counts: without a `\n` right after it, no later line is found
  match d.rx.data.findIdx? (· == cr) with
  | some r => if d.rx.data[r + 1]? = some lf then some r else none
  | none => none

/-- `Driver::drain_rx_line` -/
def drainRxLine (d : Driver) (stop : Nat) : Except Panic Driver := do
  let len := d.rx.len
  let rx ← d.rx.copyWithin (stop + 2) len 0
  let rest ← checkedSub len (stop + 2)
  return { d with rx := rx.truncate rest }

/-- `Driver::response_matches` -/
def responseMatches (kind : AwaitKind) (line : List UInt8) : Bool :=
  if startsWith line Prefix.err then
    true
  else
    match kind with
    | .ack => line = utf8 "+OK" ∨ line = utf8 "+RESET" ∨ line = utf8 "+READY"
    | .query .address => startsWith line (utf8 "+ADDRESS=")
    | .query .networkId => startsWith line (utf8 "+NETWORKID=")
    | .query .band => startsWith line (utf8 "+BAND=")
    | .query .parameters => startsWith line (utf8 "+PARAMETER=")
    | .query .crfop => startsWith line (utf8 "+CRFOP=")
    | .query .uid => startsWith line (utf8 "+UID=")
    | .query .version => startsWith line (utf8 "+VER=")
    | .query .cpin => startsWith line (utf8 "+CPIN=")

/-- Draining a line makes `rx` shorter: the recursion of `poll` ends. -/
theorem drainRxLine_len {d d' : Driver} {stop : Nat} (h : d.drainRxLine stop = .ok d') :
    d'.rx.len < d.rx.len := by
  unfold drainRxLine at h
  dsimp only at h
  cases hc : d.rx.copyWithin (stop + 2) d.rx.len 0 with
  | error p => rw [hc] at h; cases h
  | ok rx =>
    rw [hc] at h
    unfold checkedSub at h
    split_ifs at h with hle
    · simp only [bind, Except.bind, pure, Except.pure, Except.ok.injEq] at h
      subst h
      simp only [HVec.len, HVec.truncate, List.length_take] at hle ⊢
      omega
    · cases h

/-- The event branch of `Driver::poll`, for an event line that ends at `stop`. -/
def pollEvent [Target] (d : Driver) (line : List UInt8) (stop : Nat) :
    Except Fault (Poll × Driver) := do
  let readyAsOk := d.awaitingReadyAsOk && line = utf8 "+READY"
  let d ← onBuffers (d.drainRxLine stop)
  if readyAsOk then
    return (.response .ok, { d with awaitingReadyAsOk := false, state := .idle })
  -- the line itself is drained: the event is parsed from the copy
  let line ← onBuffers (sliceTo d.lineBuf.data d.lineBufLen)
  match ← inParser (parseEvent line).run with
  | .ok e => return (.event e, d)
  -- a malformed event is dropped without notice
  | .error _ => return (.idle, d)

/-- The response branch of `Driver::poll`, for a matching line that ends at `stop`. -/
def pollResponse (d : Driver) (stop : Nat) : Except Fault (Poll × Driver) := do
  let d ← onBuffers (d.drainRxLine stop)
  -- the slot is freed before the line is parsed
  let d := { d with awaitingReadyAsOk := false, state := .idle }
  let line ← onBuffers (sliceTo d.lineBuf.data d.lineBufLen)
  match parseResponse line with
  | .ok r => return (.response r, d)
  | .error _ => return (.idle, d)

/-- `Driver::poll` -/
def poll [Target] (d : Driver) : Except Fault (Poll × Driver) :=
  if d.txInFlight < d.tx.len then do
    let bytes ← onBuffers (sliceFrom d.tx.data d.txInFlight)
    return (.needTx bytes, { d with txInFlight := d.tx.len })
  else if d.rx.isEmpty then
    .ok (.idle, d)
  else
    -- nothing is left to send: look at the first line of `rx`
    match d.nextLineEnd with
    | none => .ok (.idle, d)
    | some stop =>
      match sliceTo d.rx.data stop >>= d.lineBuf.copyTo stop with
      | .error p => .error (.buffers p)
      | .ok lineBuf =>
        let d₁ := { d with lineBuf, lineBufLen := stop }
        match sliceTo lineBuf.data stop with
        | .error p => .error (.buffers p)
        | .ok line =>
          if d₁.awaitingReadyAsOk && startsWith line (utf8 "+RESET") then
            -- `+RESET` is intermediate: drain it and look at the next line
            match h : d₁.drainRxLine stop with
            | .error p => .error (.buffers p)
            | .ok d₂ =>
              have : d₂.rx.len < d.rx.len := drainRxLine_len (d := d₁) h
              poll d₂
          else if startsWith line (utf8 "+RCV") || startsWith line (utf8 "+READY") then
            d₁.pollEvent line stop
          else
            let matched :=
              match d₁.state with
              | .awaiting kind => responseMatches kind line
              | _ => false
            if matched then
              d₁.pollResponse stop
            else
              -- nobody waits for this line: it stays in `rx`, with all lines behind it
              .ok (.idle, d₁)
termination_by d.rx.len

end Driver

end Rylr998
