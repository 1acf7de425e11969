import Rylr998.Host.Equiv.Pump
import Rylr998.Host.Embassy
import Rylr998.Host.Std
import Rylr998.Host.Tokio

/-!
# What arrives between two loops

For each host crate, `arrive` says from the script alone what is in `rx` after the next read or that
the call gives up there, and `turn_arrives` that the crate's code does just that. The blocking
radio looks at the clock after the read and the radio for microcontrollers before it; both give up
when `rx` overflows, while the async radio goes on with what fits. `Std.TurnSpec` tells the ends of
a turn of the blocking radio apart.
-/

namespace Rylr998

/-! ### The blocking radio -/

namespace Std

/-- The time is not up. -/
def inTime (deadline : Nat) (rx : List UInt8) (port : Port) : Option (List UInt8 × Port) :=
  match port.clock with
  | [] => none
  | now :: clock => if now < deadline then some (rx, { port with clock }) else none

/-- `rx` after the next read of `Radio::pump_until`: the port fails, `rx` overflows or the time is
up after the read, or what is read has arrived. -/
def arrive (deadline : Nat) (rx : List UInt8) (port : Port) : Option (List UInt8 × Port) :=
  match port.reads with
  | [] => none
  | .ok bytes :: reads =>
    if rx.length + bytes.val.length ≤ rxBuf then
      inTime deadline (rx ++ bytes.val) { port with reads }
    else none
  | .error .wouldBlock :: reads => inTime deadline rx { port with reads }
  | .error .timedOut :: reads => inTime deadline rx { port with reads }
  | .error (.other _) :: _ => none

theorem inTime_rx {deadline : Nat} {rx rx' : List UInt8} {port port' : Port}
    (h : inTime deadline rx port = some (rx', port')) : rx' = rx := by
  unfold inTime at h
  split at h
  · cases h
  · split_ifs at h
    cases h
    rfl

/-! ### A turn of the blocking radio -/

/-- What a read delivers when it does not end the call. -/
def delivered : Except ErrorKind Chunk → Option (List UInt8)
  | .ok bytes => some bytes.val
  | .error .wouldBlock => some []
  | .error .timedOut => some []
  | .error (.other _) => none

/-- What a turn can do: what is read is delivered and the clock decides, or it gives up. -/
inductive TurnSpec (deadline : Nat) (d : Driver) (port : Port) :
    Except Error Unit → Driver → Port → Prop
  | delivered {read : Except ErrorKind Chunk} {reads : List (Except ErrorKind Chunk)}
    {bytes : List UInt8} {now : Nat} {clock : List Nat} {r : Except Error Unit} {d' : Driver} :
    port.reads = read :: reads → delivered read = some bytes → port.clock = now :: clock →
      d.rx.len + bytes.length ≤ rxBuf → (r = if deadline ≤ now then .error .timeout else .ok ()) →
      d'.mode = d.mode → Driver.SameTx d d' → d'.rx.data = d.rx.data ++ bytes →
      TurnSpec deadline d port r d' { port with reads, clock }
  | failed {code : Nat} {reads : List (Except ErrorKind Chunk)} :
    port.reads = .error (.other code) :: reads →
      TurnSpec deadline d port (.error (.io (.other code))) d { port with reads }
  | overflow {bytes : Chunk} {reads : List (Except ErrorKind Chunk)} {d' : Driver} :
    port.reads = .ok bytes :: reads → rxBuf < d.rx.len + bytes.val.length →
      d'.mode = d.mode → Driver.SameTx d d' →
      TurnSpec deadline d port (.error (.core .rxOverflow)) d' { port with reads }

section

variable {deadline now : Nat} {d d' : Driver} {port port' : Port} {chunk : Chunk}
  {writes : List (Except ErrorKind Unit)} {reads : List (Except ErrorKind Chunk)}
  {clock : List Nat} {r : Except Error Unit}

theorem checkDeadline_of_clock (h : port.clock = now :: clock) : checkDeadline deadline d port =
    .ok (if deadline ≤ now then .error .timeout else .ok (), d, { port with clock }) := by
  rw [checkDeadline, answer_eq_ok.mpr h]
  rfl

theorem checkDeadline_inv (h : checkDeadline deadline d port = .ok (r, d', port')) : d' = d := by
  unfold checkDeadline at h
  obtain ⟨⟨now, clock⟩, -, h⟩ := Except.bind_eq_ok.mp h
  cases h
  rfl

theorem readOnce_of_push {n : Nat} (hpush : d.pushRx chunk = .ok (.ok n, d')) :
    readOnce deadline d ⟨writes, .ok chunk :: reads, now :: clock⟩ =
      .ok (if deadline ≤ now then .error .timeout else .ok (), d', ⟨writes, reads, clock⟩) := by
  show onDriver (d.pushRx chunk) >>= _ = _
  rw [hpush]
  rfl

theorem readOnce_of_overflow {e : Rylr998.Error} (hpush : d.pushRx chunk = .ok (.error e, d')) :
    readOnce deadline d ⟨writes, .ok chunk :: reads, clock⟩ =
      .ok (.error (.core e), d', ⟨writes, reads, clock⟩) := by
  show onDriver (d.pushRx chunk) >>= _ = _
  rw [hpush]
  rfl

theorem turn_spec (h : (turn deadline).run d port = .ok (r, d', port')) :
    TurnSpec deadline d port r d' port' := by
  have h : readOnce deadline d port = .ok (r, d', port') := h
  unfold readOnce at h
  obtain ⟨⟨read, reads⟩, hread, h⟩ := Except.bind_eq_ok.mp h
  have hreads := answer_eq_ok.mp hread
  -- the clock is looked at
  have htime {d₁ : Driver} {bytes : List UInt8} (hbytes : delivered read = some bytes)
      (hfit : d.rx.len + bytes.length ≤ rxBuf) (hmode : d₁.mode = d.mode)
      (hsame : Driver.SameTx d d₁) (hrx : d₁.rx.data = d.rx.data ++ bytes)
      (h : checkDeadline deadline d₁ { port with reads } = .ok (r, d', port')) :
      TurnSpec deadline d port r d' port' := by
    cases hclock : port.clock with
    | nil =>
      rw [checkDeadline, hclock] at h
      cases h
    | cons now clock =>
      have hcheck : checkDeadline deadline d₁ { port with reads } = _ :=
        checkDeadline_of_clock hclock
      cases hcheck.symm.trans h
      exact .delivered hreads hbytes hclock hfit rfl hmode hsame hrx
  rcases read with e | bytes
  · cases e with
    | wouldBlock | timedOut =>
      exact htime rfl d.rx.length_le rfl (.refl d) (List.append_nil _).symm h
    | other code =>
      cases h
      exact .failed hreads
  · obtain ⟨⟨res, d₁⟩, hpush, h⟩ := Except.bind_eq_ok.mp h
    obtain ⟨hmode, hsame, hcase⟩ := Driver.pushRx_inv (onDriver_eq_ok.mp hpush)
    rcases hcase with ⟨hfit, rfl, hrx⟩ | ⟨hfull, rfl, -⟩
    · exact htime rfl hfit hmode hsame hrx h
    · cases h
      exact .overflow hreads hfull hmode hsame

theorem turn_of_failed {code : Nat} (h : port.reads = .error (.other code) :: reads) :
    (turn deadline).run d port = .ok (.error (.io (.other code)), d, { port with reads }) := by
  show readOnce deadline d port = _
  rw [readOnce, answer_eq_ok.mpr h]
  rfl

theorem turn_of_overflow (h : port.reads = .ok chunk :: reads)
    (hfull : rxBuf < d.rx.len + chunk.val.length) : ∃ d', (turn deadline).run d port =
      .ok (.error (.core .rxOverflow), d', { port with reads }) := by
  obtain ⟨rx, hpush, -⟩ := Driver.pushRx_of_lt hfull
  obtain ⟨writes, reads', clock⟩ := port
  obtain rfl : reads' = .ok chunk :: reads := h
  exact ⟨_, readOnce_of_overflow hpush⟩

theorem turn_of_delivered {read : Except ErrorKind Chunk} {bytes : List UInt8}
    (h : port.reads = read :: reads) (hbytes : delivered read = some bytes)
    (hclock : port.clock = now :: clock) (hfit : d.rx.len + bytes.length ≤ rxBuf) :
    ∃ d', (turn deadline).run d port =
        .ok (if deadline ≤ now then .error .timeout else .ok (), d', { port with reads, clock }) ∧
      d'.mode = d.mode ∧ Driver.SameTx d d' ∧ d'.rx.data = d.rx.data ++ bytes := by
  obtain ⟨writes, reads', clock'⟩ := port
  obtain rfl : reads' = read :: reads := h
  obtain rfl : clock' = now :: clock := hclock
  rcases read with e | chunk
  · obtain rfl : [] = bytes := by
      cases e with
      | wouldBlock | timedOut => exact Option.some.inj hbytes
      | other code => cases hbytes
    refine ⟨d, ?_, rfl, .refl d, (List.append_nil _).symm⟩
    cases e with
    | wouldBlock | timedOut => rfl
    | other code => cases hbytes
  · obtain rfl : chunk.val = bytes := Option.some.inj hbytes
    exact ⟨_, readOnce_of_push (Driver.pushRx_of_le hfit), rfl, ⟨rfl, rfl, rfl⟩, rfl⟩

/-- `arrive` is what a turn leaves in `rx`. -/
theorem arrive_of_turn (h : (turn deadline).run d port = .ok (r, d', port')) :
    arrive deadline d.rx.data port = r.toOption.map fun _ => (d'.rx.data, port') := by
  cases turn_spec h with
  | @delivered read reads bytes now clock _ _ hreads hbytes hclock hfit hr hmode hsame hrx =>
    have htime : inTime deadline (d.rx.data ++ bytes) { port with reads } =
        r.toOption.map fun _ => (d'.rx.data, { port with reads, clock }) := by
      rw [inTime, show Port.clock _ = _ from hclock, hr, hrx]
      by_cases hnow : deadline ≤ now
      · simp [hnow, Except.toOption]
      · simp [hnow, Nat.not_le.mp hnow, Except.toOption]
    rw [arrive, hreads]
    rcases read with e | chunk
    · cases e with
      | wouldBlock | timedOut =>
        obtain rfl : [] = bytes := Option.some.inj hbytes
        rw [List.append_nil] at htime
        exact htime
      | other code => cases hbytes
    · obtain rfl : chunk.val = bytes := Option.some.inj hbytes
      exact (if_pos hfit).trans htime
  | failed hreads =>
    rw [arrive, hreads]
    rfl
  | overflow hreads hfull =>
    rw [arrive, hreads]
    exact if_neg (Nat.not_le.mpr hfull)

theorem same_of_turn (h : (turn deadline).run d port = .ok (r, d', port')) :
    d'.mode = d.mode ∧ Driver.SameTx d d' := by
  cases turn_spec h with
  | delivered _ _ _ _ _ hmode hsame => exact ⟨hmode, hsame⟩
  | failed => exact ⟨rfl, .refl d⟩
  | overflow _ _ hmode hsame => exact ⟨hmode, hsame⟩

end

theorem turn_arrives (deadline : Nat) : (turn deadline).Arrives (arrive deadline) where
  arrive_eq := arrive_of_turn
  same := same_of_turn
  extends_rx := by
    intro rx port rx' port' h
    unfold arrive at h
    split at h
    · cases h
    · split_ifs at h
      rw [inTime_rx h]
      exact List.prefix_append _ _
    · rw [inTime_rx h]
    · rw [inTime_rx h]
    · cases h

end Std

/-! ### The async radio -/

namespace Tokio

/-- `rx` after the next read of `process_job`: the port fails or closes, the time is up, or what is
read has arrived as far as there is room for it. -/
def arrive (rx : List UInt8) (port : Port) : Option (List UInt8 × Port) :=
  match port.reads with
  | [] => none
  | .ok ⟨[], _⟩ :: _ => none
  | .ok bytes :: reads => some (rx ++ bytes.val.take (rxBuf - rx.length), { port with reads })
  | .error _ :: _ => none
  | .elapsed :: _ => none

theorem readOnce_inv {d d' : Driver} {port port' : Port} {r : Except Error Unit}
    (h : readOnce d port = .ok (r, d', port')) :
    (d'.mode = d.mode ∧ Driver.SameTx d d') ∧
      arrive d.rx.data port = r.toOption.map fun _ => (d'.rx.data, port') := by
  unfold readOnce at h
  obtain ⟨⟨read, reads⟩, hread, h⟩ := Except.bind_eq_ok.mp h
  unfold arrive
  rw [answer_eq_ok.mp hread]
  rcases read with _ | ⟨_ | ⟨b, bytes⟩, hlen⟩ | e
  · cases h
    exact ⟨⟨rfl, .refl d⟩, rfl⟩
  · cases h
    exact ⟨⟨rfl, .refl d⟩, rfl⟩
  · obtain ⟨⟨res, d₁⟩, hpush, h⟩ := Except.bind_eq_ok.mp h
    obtain ⟨hmode, hsame, hcase⟩ := Driver.pushRx_inv (onDriver_eq_ok.mp hpush)
    have hrx : d₁.rx.data = d.rx.data ++ (b :: bytes).take (rxBuf - d.rx.len) := by
      rcases hcase with ⟨hfit, -, hrx⟩ | ⟨-, -, hrx⟩
      · rw [hrx, List.take_of_length_le (Nat.le_sub_of_add_le' hfit)]
      · exact hrx
    cases h
    refine ⟨⟨hmode, hsame⟩, ?_⟩
    rw [hrx]
    rfl
  · cases h
    exact ⟨⟨rfl, .refl d⟩, rfl⟩

theorem turn_arrives : turn.Arrives arrive where
  arrive_eq h := (readOnce_inv h).2
  same h := (readOnce_inv h).1
  extends_rx := by
    intro rx port rx' port' h
    unfold arrive at h
    split at h
    · cases h
    · cases h
    · cases h
      exact List.prefix_append _ _
    · cases h
    · cases h

end Tokio

/-! ### The radio for microcontrollers -/

namespace Embassy

variable {ε : Type}

/-- `rx` after the next read of `Radio::pump_until`: the time is up before it, the port fails or
`rx` overflows, or what is read has arrived. -/
def arrive (deadline : Nat) (rx : List UInt8) (port : Port ε) : Option (List UInt8 × Port ε) :=
  match port.clock, port.reads with
  | now :: clock, .ok bytes :: reads =>
    if now < deadline ∧ rx.length + bytes.val.length ≤ rxBuf then
      some (rx ++ bytes.val, { port with reads, clock })
    else none
  | now :: clock, .elapsed :: reads =>
    if now < deadline then some (rx, { port with reads, clock }) else none
  | _, _ => none

theorem readOnce_inv {deadline : Nat} {d d' : Driver} {port port' : Port ε}
    {r : Except (Error ε) Unit} (h : readOnce deadline d port = .ok (r, d', port')) :
    (d'.mode = d.mode ∧ Driver.SameTx d d') ∧
      arrive deadline d.rx.data port = r.toOption.map fun _ => (d'.rx.data, port') := by
  unfold readOnce at h
  obtain ⟨⟨now, clock⟩, hclock, h⟩ := Except.bind_eq_ok.mp h
  change (if deadline - now = 0 then _ else answer port.reads >>= _) = _ at h
  unfold arrive
  rw [answer_eq_ok.mp hclock]
  by_cases hnow : now < deadline
  · rw [if_neg (by omega)] at h
    obtain ⟨⟨read, reads⟩, hread, h⟩ := Except.bind_eq_ok.mp h
    rw [answer_eq_ok.mp hread]
    rcases read with _ | bytes | e
    · cases h
      exact ⟨⟨rfl, .refl d⟩, if_pos hnow⟩
    · obtain ⟨⟨res, d₁⟩, hpush, h⟩ := Except.bind_eq_ok.mp h
      obtain ⟨hmode, hsame, hcase⟩ := Driver.pushRx_inv (onDriver_eq_ok.mp hpush)
      rcases hcase with ⟨hfit, rfl, hrx⟩ | ⟨hfull, rfl, -⟩
      · cases h
        rw [hrx]
        exact ⟨⟨hmode, hsame⟩, if_pos ⟨hnow, hfit⟩⟩
      · cases h
        exact ⟨⟨hmode, hsame⟩, if_neg fun hc => (Nat.not_le.mpr hfull) hc.2⟩
    · cases h
      exact ⟨⟨rfl, .refl d⟩, rfl⟩
  · rw [if_pos (by omega)] at h
    cases h
    refine ⟨⟨rfl, .refl d⟩, ?_⟩
    rcases port.reads with _ | ⟨_ | bytes | e, reads⟩ <;> simp [hnow, Except.toOption]

theorem turn_arrives (deadline : Nat) :
    (turn deadline : Turn ε (Read ε) (Error ε)).Arrives (arrive deadline) where
  arrive_eq h := (readOnce_inv h).2
  same h := (readOnce_inv h).1
  extends_rx := by
    intro rx port rx' port' h
    unfold arrive at h
    split at h
    · split_ifs at h
      cases h
      exact List.prefix_append _ _
    · split_ifs at h
      cases h
      exact List.prefix_refl _
    · cases h

end Embassy

end Rylr998
