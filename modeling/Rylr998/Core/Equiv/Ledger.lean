import Rylr998.Core.Equiv.Runs

/-!
# The transmit ledger

Every byte of an accepted command is in one place: still queued in `tx`, or removed by an
acknowledgement. `removedNote` keeps the removed bytes beside a run. `tx_ledger` is the account
over every run, and says that an acknowledgement removes only what `Poll.needTx` has handed out and
that acknowledgements may be split.
-/

namespace Rylr998

/-- The bytes that `encode` writes for a command into the buffer of `submit`. -/
def encoding (cmd : Command) : List UInt8 :=
  match encode cmd (List.replicate txBuf 0) with
  | .ok (.ok n, buf) => buf.take n
  | _ => []

/-- The bytes that the call hands out. -/
def Call.handedOut : Call → List UInt8
  | .poll (.needTx bs) => bs
  | _ => []

/-- The bytes handed out, in order. -/
def handedOut (calls : List Call) : List UInt8 := calls.flatMap Call.handedOut

/-- The bytes that acknowledgements have removed from `tx`, after the call `c`. -/
def removedNote (d : Driver) (_ : Op) (c : Call) (d' : Driver) (removed : List UInt8) :
    List UInt8 :=
  match c with
  | .ackTx _ => removed ++ d.tx.data.take (d.tx.len - d'.tx.len)
  | _ => removed

@[simp] theorem handedOut_nil : handedOut [] = [] := rfl

@[simp] theorem handedOut_append (cs ds : List Call) :
    handedOut (cs ++ ds) = handedOut cs ++ handedOut ds := List.flatMap_append

theorem handedOut_singleton (c : Call) : handedOut [c] = c.handedOut := by simp [handedOut]

theorem handedOut_pollOf (o : Option Output) : (Call.poll (pollOf o)).handedOut = [] := by
  rcases o with _ | r | e <;> rfl

theorem accepted?_pollOf (o : Option Output) : (Call.poll (pollOf o)).accepted? = none := by
  rcases o with _ | r | e <;> rfl

theorem encoding_eq {cmd : Command} (h : (wire cmd).length ≤ txBuf) : encoding cmd = wire cmd := by
  unfold encoding
  rw [encode_of_le (by simpa using h)]
  simp

/-! ### Splitting an acknowledgement -/

namespace Driver

theorem dropSent_dropSent (d : Driver) (a b : Nat) :
    (d.dropSent a).dropSent b = d.dropSent (a + b) := by
  have hcount : d.ackCount a + (d.dropSent a).ackCount b = d.ackCount (a + b) := by
    simp only [ackCount, dropSent]
    omega
  have htx : ((d.dropSent a).dropSent b).tx = (d.dropSent (a + b)).tx := by
    ext1
    show (d.tx.data.drop (d.ackCount a)).drop ((d.dropSent a).ackCount b) =
      d.tx.data.drop (d.ackCount (a + b))
    rw [List.drop_drop, hcount]
  have hflight : ((d.dropSent a).dropSent b).txInFlight = (d.dropSent (a + b)).txInFlight := by
    show d.txInFlight - d.ackCount a - (d.dropSent a).ackCount b = d.txInFlight - d.ackCount (a + b)
    omega
  exact Driver.ext rfl htx hflight rfl rfl rfl rfl rfl

/-- A driver with nothing in flight has nothing to acknowledge. -/
theorem dropSent_of_zero {d : Driver} (h : d.txInFlight = 0) (n : Nat) : d.dropSent n = d := by
  have hcount : d.ackCount n = 0 := by
    rw [ackCount, h, Nat.min_zero]
  have htx : (d.dropSent n).tx = d.tx := by
    ext1
    rw [dropSent, HVec.data_dropFront, hcount, List.drop_zero]
  have hflight : (d.dropSent n).txInFlight = d.txInFlight := by
    show d.txInFlight - d.ackCount n = d.txInFlight
    rw [hcount, Nat.sub_zero]
  exact Driver.ext rfl htx hflight rfl rfl rfl rfl rfl

/-- It makes no difference when the driver goes on to wait for the reply. -/
theorem advance_dropSent_advance {d : Driver} (h : d.txInFlight ≤ d.tx.len) (n : Nat) :
    (d.advance.dropSent n).advance = (d.dropSent n).advance := by
  by_cases hsent : d.tx.data = [] ∧ d.state = .sendingTx
  · have hzero : d.txInFlight = 0 := by
      rw [HVec.len, hsent.1] at h
      exact Nat.le_zero.mp h
    obtain ⟨htx, hflight, -⟩ := advance_same d
    rw [dropSent_of_zero (hflight.trans hzero), dropSent_of_zero hzero]
    -- a driver that has gone on does not go on again
    cases hkind : d.pendingKind with
    | none =>
      have hstay : d.advance = d := by
        unfold advance
        rw [hkind]
        split_ifs <;> rfl
      rw [hstay, hstay]
    | some kind =>
      rw [advance_of_pending hsent.1 hsent.2 hkind]
      exact advance_of_not (by simp)
  · rw [advance_of_not hsent]

theorem ackTx_add {d : Driver} (h : d.txInFlight ≤ d.tx.len) (a b : Nat) :
    d.ackTx (a + b) = d.ackTx a >>= fun d' => d'.ackTx b := by
  have hdrop : (d.dropSent a).txInFlight ≤ (d.dropSent a).tx.len := by
    have hk : d.ackCount a ≤ d.txInFlight := Nat.min_le_right _ _
    simp only [dropSent, HVec.len, HVec.data_dropFront, List.length_drop] at h ⊢
    omega
  have hadv : (d.dropSent a).advance.txInFlight ≤ (d.dropSent a).advance.tx.len := by
    obtain ⟨htx, hflight, -⟩ := advance_same (d.dropSent a)
    rw [htx, hflight]
    exact hdrop
  rw [ackTx_eq d (a + b) h, ackTx_eq d a h]
  show _ = (d.dropSent a).advance.ackTx b
  rw [ackTx_eq _ b hadv, advance_dropSent_advance hdrop, dropSent_dropSent]

end Driver

/-! ### The account -/

/-- The account of the bytes of the accepted commands. -/
structure Balanced (calls : List Call) (d : Driver) (removed : List UInt8) : Prop where
  /-- What was removed and what is queued is what was accepted. -/
  total : removed ++ d.tx.data = (accepted calls).flatMap encoding
  /-- What was handed out is what was removed and what is in flight. -/
  handed : handedOut calls = removed ++ d.tx.data.take d.txInFlight

theorem removedNote_of_ne {d d' : Driver} {op : Op} {c : Call} (h : ∀ n, c ≠ .ackTx n)
    (removed : List UInt8) : removedNote d op c d' removed = removed := by
  cases c with
  | ackTx n => exact absurd rfl (h n)
  | submit | pushRx | poll => rfl

/-- A call that neither queues, hands out nor removes bytes. -/
theorem Balanced.same {calls : List Call} {c : Call} {d d' : Driver} {removed : List UInt8}
    (h : Balanced calls d removed) (hc : c.accepted? = none) (hout : c.handedOut = [])
    (htx : d'.tx = d.tx) (hflight : d'.txInFlight = d.txInFlight) :
    Balanced (calls ++ [c]) d' removed where
  total := by
    rw [accepted_append, accepted_singleton, hc, htx]
    simpa using h.total
  handed := by
    rw [handedOut_append, handedOut_singleton, hout, htx, hflight]
    simpa using h.handed

/-- An acknowledgement moves bytes from the queue to the removed ones. -/
theorem Balanced.ack {calls : List Call} {d d' : Driver} {removed : List UInt8} {n : Nat}
    (hinv : d.Inv) (h : Balanced calls d removed) (htx : d'.tx = (d.dropSent n).tx)
    (hflight : d'.txInFlight = (d.dropSent n).txInFlight) :
    Balanced (calls ++ [.ackTx n]) d' (removedNote d (.ackTx n) (.ackTx n) d' removed) := by
  have hcount : d.tx.len - d'.tx.len = d.ackCount n := by
    have hlen := (Driver.dropSent_len hinv n).1
    rw [htx]
    omega
  have hdata : d'.tx.data = d.tx.data.drop (d.ackCount n) := by
    rw [htx]
    rfl
  have hk : d.ackCount n ≤ d.txInFlight := Nat.min_le_right _ _
  have hnote : removedNote d (.ackTx n) (.ackTx n) d' removed =
      removed ++ d.tx.data.take (d.ackCount n) := by
    rw [removedNote, hcount]
  constructor
  · rw [hnote, hdata, List.append_assoc, List.take_append_drop]
    simpa [accepted_singleton, Call.accepted?] using h.total
  · rw [hnote, hdata, hflight, handedOut_append, h.handed, List.append_assoc]
    have hsplit : d.tx.data.take d.txInFlight = d.tx.data.take (d.ackCount n) ++
        (d.tx.data.drop (d.ackCount n)).take (d.txInFlight - d.ackCount n) := by
      rw [← List.take_add, Nat.add_sub_cancel' hk]
    rw [hsplit]
    simp [handedOut, Call.handedOut, Driver.dropSent]

theorem balanced_step [Target] {calls : List Call} {d d' : Driver} {removed : List UInt8} {op : Op}
    {c : Call} (hinv : d.Inv) (h : Balanced calls d removed) (hstep : d.step op = .ok (c, d')) :
    Balanced (calls ++ [c]) d' (removedNote d op c d' removed) := by
  cases Driver.step_spec hinv hstep with
  | busy | refuse | push | overflow =>
    rw [removedNote_of_ne (by simp)]
    exact h.same rfl rfl rfl rfl
  | accept cmd hfit hidle =>
    rw [removedNote_of_ne (by simp)]
    have hwire : encoding cmd = wire cmd := encoding_eq (by omega)
    have hflight : d.tx.data.take d.txInFlight = d.tx.data :=
      List.take_of_length_le (Nat.le_of_eq (hinv.idle hidle).symm)
    refine ⟨?_, ?_⟩
    · rw [accepted_append, accepted_singleton, List.flatMap_append, ← h.total]
      simp [Call.accepted?, Driver.accept, hwire]
    · have htake : (d.tx.data ++ wire cmd).take d.txInFlight = d.tx.data := by
        rw [hinv.idle hidle]
        exact List.take_left
      rw [handedOut_append, h.handed, hflight]
      simp [handedOut, Call.handedOut, Driver.accept, htake]
  | needTx htx =>
    rw [removedNote_of_ne (by simp)]
    refine ⟨?_, ?_⟩
    · rw [accepted_append]
      simpa [accepted_singleton, Call.accepted?] using h.total
    · rw [handedOut_append, h.handed, handedOut_singleton, List.append_assoc]
      simp [Call.handedOut, HVec.len]
  | lines o d' htx hn hsame =>
    rw [removedNote_of_ne (by simp)]
    exact h.same (accepted?_pollOf o) (handedOut_pollOf o) hsame.tx hsame.txInFlight
  | ack n => exact h.ack hinv rfl rfl
  | sent n => exact h.ack hinv rfl rfl

theorem balanced_of_run [Target] {ops : List Op} {calls : List Call} {d : Driver}
    {removed : List UInt8}
    (h : Component.run (Component.noted Driver.step removedNote) (.new, []) ops =
      .ok (calls, d, removed)) : Balanced calls d removed := by
  refine Component.run_noted_induction (P := fun _ calls d removed => Balanced calls d removed)
    ⟨rfl, rfl⟩ ?_ ops calls d removed h
  intro ops calls d removed op c d' hr hbal hstep
  exact balanced_step (Runs.inv (Component.run_of_noted hr)) hbal hstep

/-- **The transmit ledger.** After every run, the bytes removed by acknowledgements and those in
`tx` are the encodings of the accepted commands, and only bytes handed out have been removed. -/
theorem tx_ledger [Target] {ops : List Op} {calls : List Call} {d : Driver} {removed : List UInt8}
    (h : Component.run (Component.noted Driver.step removedNote) (.new, []) ops =
      .ok (calls, d, removed)) :
    removed ++ d.tx.data = (accepted calls).flatMap encoding ∧
      d.txInFlight ≤ d.tx.len ∧
      removed <+: handedOut calls ∧
      (d.state = .sendingTx → d.tx.data ≠ [] ∧ d.pendingKind ≠ none) ∧
      (∀ kind, d.state = .awaiting kind →
        d.tx.data = [] ∧ d.txInFlight = 0 ∧ d.pendingKind = none) ∧
      ∀ a b, d.ackTx (a + b) = d.ackTx a >>= fun d' => d'.ackTx b := by
  have hbal := balanced_of_run h
  have hinv : d.Inv := Runs.inv (Component.run_of_noted h)
  refine ⟨hbal.total, hinv.inFlight_le, ⟨_, hbal.handed.symm⟩, hinv.sendingTx, ?_,
    Driver.ackTx_add hinv.inFlight_le⟩
  intro kind hkind
  obtain ⟨htx, hpending⟩ := hinv.awaiting kind hkind
  have hzero : d.txInFlight ≤ 0 := by
    have hle := hinv.inFlight_le
    rwa [HVec.len, htx] at hle
  exact ⟨htx, Nat.le_zero.mp hzero, hpending⟩

section

attribute [local instance] Target.host

/-- A ping, acknowledged in two parts. -/
theorem tx_ledger_ping :
    let d : Driver := { Driver.new with state := .awaiting .ack }
    wire .ping ++ d.tx.data = (accepted [.submit .ping (.ok ()), .poll (.needTx (wire .ping)),
        .ackTx 3, .ackTx 9]).flatMap encoding ∧
      d.txInFlight ≤ d.tx.len ∧
      wire .ping <+: handedOut [.submit .ping (.ok ()), .poll (.needTx (wire .ping)), .ackTx 3,
        .ackTx 9] ∧
      (d.state = .sendingTx → d.tx.data ≠ [] ∧ d.pendingKind ≠ none) ∧
      (∀ kind, d.state = .awaiting kind →
        d.tx.data = [] ∧ d.txInFlight = 0 ∧ d.pendingKind = none) ∧
      ∀ a b, d.ackTx (a + b) = d.ackTx a >>= fun d' => d'.ackTx b := by
  intro d
  have hrun : Component.run (Component.noted Driver.step removedNote) (.new, [])
      [.submit .ping, .poll, .ackTx 3, .ackTx 9] =
      .ok ([.submit .ping (.ok ()), .poll (.needTx (wire .ping)), .ackTx 3, .ackTx 9], d,
        wire .ping) := by
    decide +kernel
  exact tx_ledger hrun

end

end Rylr998
