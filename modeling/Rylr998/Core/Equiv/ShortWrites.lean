import Rylr998.Core.Equiv.Ledger

/-!
# Writing a command in parts

`Poll.needTx` hands out all that is queued and counts it as in flight, whatever part of it the
caller goes on to write. An acknowledgement of a part takes that part off `tx` and off the count, so
that the rest counts as handed out and is not handed out again. A command is transmitted exactly
when its first write takes the whole slice (`short_writes_iff`).
-/

namespace Rylr998

/-- The caller polls, writes `k` bytes of what it is handed and acknowledges them, for each `k` of
the schedule, until a poll hands out nothing. The bytes on the wire are `out`. -/
inductive Transmits [Target] : Driver → List Nat → List UInt8 → Driver → Prop
  | stop {d d' : Driver} {p : Poll} : d.poll = .ok (p, d') → (∀ bs, p ≠ .needTx bs) →
    Transmits d [] [] d'
  | write {d d₁ d₂ d' : Driver} {bs out : List UInt8} {k : Nat} {ks : List Nat} :
    d.poll = .ok (.needTx bs, d₁) → 0 < k → k ≤ bs.length → d₁.ackTx k = .ok d₂ →
      Transmits d₂ ks out d' → Transmits d (k :: ks) (bs.take k ++ out) d'

namespace Driver

/-- A command has been accepted by an idle driver that had nothing else to send. -/
structure Accepted (d : Driver) (cmd : Command) : Prop where
  tx : d.tx.data = wire cmd
  txInFlight : d.txInFlight = 0
  rx : d.rx.data = []
  state : d.state = .sendingTx
  pendingKind : d.pendingKind = some cmd.awaitKind

/-- The driver after `k` bytes are written and acknowledged. -/
def written (d : Driver) (k : Nat) : Driver :=
  (({ d with txInFlight := d.tx.len } : Driver).dropSent k).advance

theorem accepted_of_submit {cmd : Command} {d : Driver}
    (h : Driver.new.submit cmd = .ok (.ok (), d)) : d.Accepted cmd ∧ encoding cmd = wire cmd := by
  obtain ⟨-, hfit, rfl⟩ := submit_ok_inv h
  have hfit' : 0 + (wire cmd).length ≤ txBuf := hfit
  rw [Nat.zero_add] at hfit'
  exact ⟨⟨rfl, rfl, rfl, rfl, rfl⟩, encoding_eq hfit'⟩

section Written

variable {d : Driver} {cmd : Command} {k : Nat}

theorem ackTx_handedOut (d : Driver) (k : Nat) :
    ({ d with txInFlight := d.tx.len } : Driver).ackTx k = .ok (d.written k) :=
  ackTx_eq _ k (Nat.le_refl _)

/-- What is not acknowledged stays queued, and counts as handed out. -/
theorem Accepted.written_tx (h : d.Accepted cmd) (hk : k ≤ (wire cmd).length) :
    (d.written k).tx.data = (wire cmd).drop k ∧ (d.written k).txInFlight = (d.written k).tx.len ∧
      (d.written k).rx.data = [] := by
  obtain ⟨htx, hflight, hrx, -⟩ :=
    advance_same (({ d with txInFlight := d.tx.len } : Driver).dropSent k)
  have hlen : d.tx.len = (wire cmd).length := by rw [HVec.len, h.tx]
  have hcount : ({ d with txInFlight := d.tx.len } : Driver).ackCount k = k := by
    show min k d.tx.len = k
    omega
  have hdata : (d.written k).tx.data = (wire cmd).drop k := by
    rw [written, htx, dropSent, HVec.data_dropFront, hcount, h.tx]
  refine ⟨hdata, ?_, ?_⟩
  · rw [HVec.len, hdata, List.length_drop, written, hflight, dropSent, hcount, hlen]
  · rw [written, hrx]
    exact h.rx

/-- The driver goes on to wait for the reply when all is written. -/
theorem Accepted.written_state (h : d.Accepted cmd) (hk : k ≤ (wire cmd).length) :
    (d.written k).state = .awaiting cmd.awaitKind ↔ k = (wire cmd).length := by
  obtain ⟨hdata, -, -⟩ := h.written_tx hk
  obtain ⟨htx, -⟩ := advance_same (({ d with txInFlight := d.tx.len } : Driver).dropSent k)
  rw [written, htx] at hdata
  rcases Nat.lt_or_eq_of_le hk with hlt | rfl
  · have hne : (wire cmd).drop k ≠ [] := by
      rw [ne_eq, List.drop_eq_nil_iff]
      omega
    rw [written, advance_of_not (by rw [hdata]; exact fun hnil => hne hnil.1)]
    exact iff_of_false (by show d.state ≠ _; rw [h.state]; nofun) (Nat.ne_of_lt hlt)
  · rw [List.drop_length] at hdata
    rw [written, advance_of_pending hdata h.state h.pendingKind]
    exact iff_of_true rfl rfl

variable [Target]

theorem Accepted.poll (h : d.Accepted cmd) :
    d.poll = .ok (.needTx (wire cmd), { d with txInFlight := d.tx.len }) := by
  have hlt : d.txInFlight < d.tx.len := by
    rw [h.txInFlight, HVec.len, h.tx]
    exact List.length_pos_of_ne_nil (wire_ne_nil cmd)
  rw [poll_needTx hlt, h.txInFlight, h.tx]
  rfl

/-- The next poll finds nothing to send, and nothing else to do. -/
theorem Accepted.poll_written (h : d.Accepted cmd) (hk : k ≤ (wire cmd).length) :
    (d.written k).poll = .ok (.idle, d.written k) := by
  obtain ⟨-, hflight, hrx⟩ := h.written_tx hk
  apply poll_of_no_line (Nat.le_of_eq hflight.symm)
  rw [hrx]
  rfl

/-- A transmission is one write. -/
theorem Accepted.transmits_iff (h : d.Accepted cmd) {ks : List Nat} {out : List UInt8}
    {d' : Driver} : Transmits d ks out d' ↔
      ∃ k, 0 < k ∧ k ≤ (wire cmd).length ∧ ks = [k] ∧ out = (wire cmd).take k ∧
        d' = d.written k := by
  constructor
  · intro ht
    cases ht with
    | stop hp hne =>
      cases h.poll.symm.trans hp
      exact absurd rfl (hne _)
    | @write _ d₁ d₂ _ bs _ k ks hp hpos hk hack hrest =>
      cases h.poll.symm.trans hp
      cases (ackTx_handedOut d k).symm.trans hack
      have hidle := h.poll_written hk
      cases hrest with
      | stop hp' =>
        cases hidle.symm.trans hp'
        exact ⟨k, hpos, hk, rfl, List.append_nil _, rfl⟩
      | write hp' => cases hidle.symm.trans hp'
  · rintro ⟨k, hpos, hk, rfl, rfl, rfl⟩
    have hstop := Transmits.stop (h.poll_written hk) nofun
    have hwrite := Transmits.write h.poll hpos hk (ackTx_handedOut d k) hstop
    rwa [List.append_nil] at hwrite

end Written

end Driver

/-- **Short writes.** The bytes on the wire are those of the command, and the driver waits for the
reply, exactly when the first write takes all that is handed out; and there is a transmission for
each first write. -/
theorem short_writes_iff [Target] {cmd : Command} {d : Driver}
    (h : Driver.new.submit cmd = .ok (.ok (), d)) :
    (∀ ks out d', Transmits d ks out d' →
      ((out = encoding cmd ∧ d'.state = .awaiting cmd.awaitKind) ↔
        ks.head? = some (encoding cmd).length)) ∧
      ∀ k, 0 < k → k ≤ (encoding cmd).length → ∃ ks out d', Transmits d (k :: ks) out d' := by
  obtain ⟨hacc, henc⟩ := Driver.accepted_of_submit h
  rw [henc]
  constructor
  · intro ks out d' ht
    obtain ⟨k, -, hk, rfl, rfl, rfl⟩ := hacc.transmits_iff.mp ht
    rw [hacc.written_state hk, List.head?_cons, Option.some.injEq]
    refine and_iff_right_of_imp ?_
    rintro rfl
    exact List.take_length
  · intro k hpos hk
    exact ⟨[], _, _, hacc.transmits_iff.mpr ⟨k, hpos, hk, rfl, rfl, rfl⟩⟩

section

attribute [local instance] Target.host

/-- A driver that has accepted a ping. -/
def Driver.pinging : Driver := Driver.new.accept .ping (by decide)

theorem Driver.submit_pinging : Driver.new.submit .ping = .ok (.ok (), Driver.pinging) :=
  submit_accept rfl (by decide)

theorem short_writes_ping :
    (∀ ks out d', Transmits Driver.pinging ks out d' →
      ((out = encoding .ping ∧ d'.state = .awaiting .ack) ↔
        ks.head? = some (encoding .ping).length)) ∧
      ∀ k, 0 < k → k ≤ (encoding .ping).length →
        ∃ ks out d', Transmits Driver.pinging (k :: ks) out d' :=
  short_writes_iff Driver.submit_pinging

/-- Once one byte of a ping is written, the other three are not handed out any more. -/
theorem not_short_writes : ¬ ∀ cmd d, Driver.new.submit cmd = .ok (.ok (), d) →
    ∀ ks out d', Transmits d ks out d' →
      out = encoding cmd ∧ d'.state = .awaiting cmd.awaitKind := by
  intro h
  have hacc := (Driver.accepted_of_submit Driver.submit_pinging).1
  have hwrite : Transmits Driver.pinging [1] (utf8 "A") (Driver.pinging.written 1) :=
    hacc.transmits_iff.mpr ⟨1, by decide, by decide, rfl, rfl, rfl⟩
  obtain ⟨hout, -⟩ := h .ping Driver.pinging Driver.submit_pinging _ _ _ hwrite
  exact absurd hout (by decide +kernel)

end

end Rylr998
