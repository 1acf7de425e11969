import Rylr998.Core.Session
import Rylr998.Core.Equiv.Runs

/-!
# Sessions are the line machine at work

`Driver.drain` hands out what there is to send (`Driver.handout`) and then drains `driverMachine`
(`drain_of_machine`); `Driver.feed` feeds it as long as no chunk overflows (`feed_of_machine`).
-/

namespace Rylr998

open Framing

namespace Driver

/-- The bytes that the next `poll` hands out. -/
def handout (d : Driver) : List Poll :=
  if d.txInFlight < d.tx.len then [.needTx (d.tx.data.drop d.txInFlight)] else []

theorem handout_eq_nil_iff {d : Driver} : d.handout = [] ↔ d.tx.len ≤ d.txInFlight := by
  unfold handout
  split_ifs with h <;> simp <;> omega

theorem event_not_mem_handout (d : Driver) (e : Event) : .event e ∉ d.handout := by
  unfold handout
  split_ifs <;> simp

section

variable [Target]

theorem drain_of_poll_error {d : Driver} {f : Fault} (h : d.poll = .error f) :
    d.drain = .error f := by
  rw [drain]
  split <;> simp_all

theorem drain_of_poll_idle {d d' : Driver} (h : d.poll = .ok (.idle, d')) :
    d.drain = .ok ([], d') := by
  rw [drain]
  split <;> simp_all

theorem drain_of_poll {d d' : Driver} {p : Poll} (h : d.poll = .ok (p, d')) (hp : p ≠ .idle) :
    d.drain = d'.drain.map fun q => (p :: q.1, q.2) := by
  rw [drain]
  split <;> simp_all

/-- With nothing to send, `drain` drains `driverMachine`. -/
def DrainIsDrain (d : Driver) : Prop :=
  match driverMachine.drain d.mode d.rx.data with
  | .error f => d.drain = .error f
  | .ok (os, m, buf) =>
    ∃ d', d.drain = .ok (os.map Output.poll, d') ∧ d'.mode = m ∧ d'.rx.data = buf ∧ SameTx d d'

theorem drainIsDrain (d : Driver) (htx : d.tx.len ≤ d.txInFlight) : DrainIsDrain d := by
  induction hlen : d.rx.len using Nat.strong_induction_on generalizing d with
  | _ n ih =>
  subst hlen
  unfold DrainIsDrain
  cases hn : driverMachine.next d.mode d.rx.data with
  | error f =>
    rw [LineMachine.drain_error hn]
    exact drain_of_poll_error (poll_of_next_error htx hn)
  | ok q =>
    obtain ⟨_ | o, m, buf⟩ := q
    · rw [LineMachine.drain_none hn]
      obtain ⟨d', hp, hm, hb, hsame⟩ := poll_of_next htx hn
      exact ⟨d', drain_of_poll_idle hp, hm, hb, hsame⟩
    · obtain ⟨d₁, hp, rfl, rfl, hsame⟩ := poll_of_next htx hn
      have hshort := (LineMachine.next_length hn).2 rfl
      have hrec := ih d₁.rx.len (by unfold HVec.len; omega) d₁
        (hsame.tx_le htx) rfl
      rw [LineMachine.drain_some hn, drain_of_poll hp (by cases o <;> nofun)]
      unfold DrainIsDrain at hrec
      cases hd : driverMachine.drain d₁.mode d₁.rx.data with
      | error f =>
        rw [hd] at hrec
        rw [show d₁.drain = .error f from hrec]
        rfl
      | ok r =>
        rw [hd] at hrec
        obtain ⟨d', hd', hm, hb, hsame'⟩ := hrec
        rw [hd']
        exact ⟨d', rfl, hm, hb, hsame.trans hsame'⟩

theorem drain_of_sent {d : Driver} (htx : d.tx.len ≤ d.txInFlight) {os : List Output} {m : Mode}
    {buf : List UInt8} (h : driverMachine.drain d.mode d.rx.data = .ok (os, m, buf)) :
    ∃ d', d.drain = .ok (os.map Output.poll, d') ∧ d'.mode = m ∧ d'.rx.data = buf ∧
      SameTx d d' := by
  have := drainIsDrain d htx
  rwa [DrainIsDrain, h] at this

theorem drain_of_sent_error {d : Driver} (htx : d.tx.len ≤ d.txInFlight) {f : Fault}
    (h : driverMachine.drain d.mode d.rx.data = .error f) : d.drain = .error f := by
  have := drainIsDrain d htx
  rwa [DrainIsDrain, h] at this

/-- What the driver is like once its bytes are handed out. -/
def handedOut (d : Driver) : Driver := { d with txInFlight := max d.txInFlight d.tx.len }

theorem drain_handout (d : Driver) :
    d.drain = d.handedOut.drain.map fun q => (d.handout ++ q.1, q.2) := by
  rcases Nat.lt_or_ge d.txInFlight d.tx.len with h | h
  · have hd : { d with txInFlight := d.tx.len } = d.handedOut := by
      rw [handedOut, Nat.max_eq_right (Nat.le_of_lt h)]
    rw [drain_of_poll (poll_needTx h) nofun, hd, handout, if_pos h]
    rfl
  · have hd : d.handedOut = d := by rw [handedOut, Nat.max_eq_left h]
    rw [hd, handout_eq_nil_iff.mpr h]
    cases d.drain <;> rfl

/-- A drain hands out what there is to send, and then drains the line machine. -/
theorem drain_of_machine {d : Driver} {os : List Output} {m : Mode} {buf : List UInt8}
    (h : driverMachine.drain d.mode d.rx.data = .ok (os, m, buf)) :
    ∃ d', d.drain = .ok (d.handout ++ os.map Output.poll, d') ∧ d'.mode = m ∧ d'.rx.data = buf ∧
      SameTx d.handedOut d' := by
  obtain ⟨d', hd', hm, hb, hsame⟩ := drain_of_sent (d := d.handedOut) (Nat.le_max_right _ _) h
  exact ⟨d', by rw [drain_handout, hd']; rfl, hm, hb, hsame⟩

theorem drain_of_machine_error {d : Driver} {f : Fault}
    (h : driverMachine.drain d.mode d.rx.data = .error f) : d.drain = .error f := by
  rw [drain_handout, drain_of_sent_error (d := d.handedOut) (Nat.le_max_right _ _) h]
  rfl

/-! ### Sessions -/

theorem feed_overflow {d : Driver} {c : List UInt8} (h : rxBuf < d.rx.len + c.length)
    (cs : List (List UInt8)) : ∃ d', d.feed (c :: cs) = .ok (.error .rxOverflow, d') := by
  obtain ⟨rx, hpush, -⟩ := pushRx_of_lt h
  exact ⟨{ d with rx }, by rw [feed, hpush]⟩

/-- The driver with `c` at the end of `rx`. -/
def received (d : Driver) (c : List UInt8) (h : d.rx.len + c.length ≤ rxBuf) : Driver :=
  { d with rx := d.rx.append c h }

theorem feed_cons {d d' : Driver} {c : List UInt8} {ps : List Poll}
    (h : d.rx.len + c.length ≤ rxBuf) (hd : (d.received c h).drain = .ok (ps, d'))
    (cs : List (List UInt8)) :
    d.feed (c :: cs) = (d'.feed cs).map fun q => (q.1.map (ps :: ·), q.2) := by
  rw [received] at hd
  rw [feed, pushRx_of_le h]
  dsimp only
  rw [hd]

theorem feed_cons_error {d : Driver} {c : List UInt8} {f : Fault} (h : d.rx.len + c.length ≤ rxBuf)
    (hd : (d.received c h).drain = .error f) (cs : List (List UInt8)) :
    d.feed (c :: cs) = .error f := by
  rw [received] at hd
  rw [feed, pushRx_of_le h]
  dsimp only
  rw [hd]

/-- A session that goes on after a drain that returned `ps`. -/
theorem feed_map_eq_ok {d d' : Driver} {cs : List (List UInt8)} {ps : List Poll}
    {pss : List (List Poll)}
    (h : (d.feed cs).map (fun q => (q.1.map (ps :: ·), q.2)) = .ok (.ok pss, d')) :
    ∃ pss₁, d.feed cs = .ok (.ok pss₁, d') ∧ pss = ps :: pss₁ := by
  obtain ⟨⟨res, d₁⟩, hf, h⟩ := Except.map_eq_ok.mp h
  obtain ⟨hres, rfl⟩ := Prod.mk.inj h
  obtain ⟨pss₁, rfl, hpss⟩ := Except.map_eq_ok.mp hres
  exact ⟨pss₁, hf, hpss.symm⟩

/-- A session that returns all its results: the first chunk fits and is drained. -/
theorem feed_cons_inv {d d' : Driver} {c : List UInt8} {cs : List (List UInt8)}
    {pss : List (List Poll)} (h : d.feed (c :: cs) = .ok (.ok pss, d')) :
    ∃ hfit ps d₁ pss₁, (d.received c hfit).drain = .ok (ps, d₁) ∧
      d₁.feed cs = .ok (.ok pss₁, d') ∧ pss = ps :: pss₁ := by
  rcases Nat.lt_or_ge rxBuf (d.rx.len + c.length) with hfull | hfit
  · obtain ⟨d₁, hd₁⟩ := feed_overflow hfull cs
    cases hd₁.symm.trans h
  cases hd : (d.received c hfit).drain with
  | error f => cases (feed_cons_error hfit hd cs).symm.trans h
  | ok q =>
    obtain ⟨ps, d₁⟩ := q
    rw [feed_cons hfit hd] at h
    obtain ⟨pss₁, hf, rfl⟩ := feed_map_eq_ok h
    exact ⟨hfit, ps, d₁, pss₁, hd, hf, rfl⟩

theorem feed_length {d d' : Driver} {cs : List (List UInt8)} {pss : List (List Poll)}
    (h : d.feed cs = .ok (.ok pss, d')) : pss.length = cs.length := by
  induction cs generalizing d pss with
  | nil => cases h; rfl
  | cons c cs ih =>
    obtain ⟨-, ps, d₁, pss₁, -, hf, rfl⟩ := feed_cons_inv h
    rw [List.length_cons, List.length_cons, ih hf]

/-- A session that does not overflow feeds the line machine. -/
theorem feed_of_machine {d : Driver} (htx : d.tx.len ≤ d.txInFlight) {cs : List (List UInt8)}
    {os : List Output} {m : Mode} {buf : List UInt8}
    (h : driverMachine.feed d.mode d.rx.data cs = .ok (os, m, buf)) :
    (∃ d', d.feed cs = .ok (.error .rxOverflow, d')) ∨
      ∃ pss d', d.feed cs = .ok (.ok pss, d') ∧ pss.flatten = os.map Output.poll ∧ d'.mode = m ∧
        d'.rx.data = buf ∧ SameTx d d' := by
  induction cs generalizing d os with
  | nil =>
    cases h
    exact Or.inr ⟨[], d, rfl, rfl, rfl, rfl, .refl d⟩
  | cons c cs ih =>
    rcases Nat.lt_or_ge rxBuf (d.rx.len + c.length) with hfull | hfit
    · exact Or.inl (feed_overflow hfull cs)
    obtain ⟨os₁, m₁, buf₁, os₂, hd, hf, rfl⟩ := LineMachine.feed_cons_inv h
    obtain ⟨d₁, hd₁, rfl, rfl, hsame⟩ := drain_of_sent (d := d.received c hfit) htx hd
    have hsame' : SameTx d d₁ := ⟨hsame.tx, hsame.txInFlight, hsame.pendingKind⟩
    have htx' : d₁.tx.len ≤ d₁.txInFlight := hsame'.tx_le htx
    rw [feed_cons hfit hd₁]
    rcases ih htx' hf with ⟨d', hd'⟩ | ⟨pss, d', hd', hps, hm, hb, hsame₂⟩
    · exact Or.inl ⟨d', by rw [hd']; rfl⟩
    · refine Or.inr ⟨_ :: pss, d', by rw [hd']; rfl, ?_, hm, hb, hsame'.trans hsame₂⟩
      rw [List.flatten_cons, hps, List.map_append]

theorem feed_ne_error {d : Driver} {cs : List (List UInt8)}
    (h : (d.feed cs).map (fun q => q.1.toBool) = .ok true) (e : Error) (d' : Driver) :
    d.feed cs ≠ .ok (.error e, d') := by
  intro he
  rw [he] at h
  cases h

/-- A session on lines that the line machine accepts, if it does not overflow. -/
theorem feed_of_accepts {d : Driver} (htx : d.tx.len ≤ d.txInFlight) (hrx : d.rx.data = [])
    {ls : List (List UInt8)} {os : List Output} {m : Mode}
    (h : driverMachine.Accepts d.mode ls os m) {cs : List (List UInt8)}
    (hcs : cs.flatten = crlf.unlines ls) (hfit : ∀ e d', d.feed cs ≠ .ok (.error e, d')) :
    ∃ pss d', d.feed cs = .ok (.ok pss, d') ∧ pss.flatten = os.map Output.poll ∧ d'.mode = m ∧
      d'.rx.data = [] := by
  have hfeed := LineMachine.feed_accepts h hcs
  rw [← hrx] at hfeed
  rcases feed_of_machine htx hfeed with ⟨d', hd'⟩ | ⟨pss, d', hd', hps, hm, hb, -⟩
  · exact absurd hd' (hfit _ _)
  · exact ⟨pss, d', hd', hps, hm, hb.trans hrx⟩

end

end Driver

end Rylr998
