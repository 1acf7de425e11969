import Rylr998.Core.Equiv.Driver

/-!
# The documented way to poll

`Driver::poll` is to be called in a loop until it returns `Poll::Idle`, then the caller reads more
bytes and feeds them with `push_rx`. `Driver.drain` is that loop and `Driver.feed` the session made
of it: push a chunk, drain, and so on, until the chunks are used up or one of them overflows `rx`.
-/

namespace Rylr998

namespace Driver

/-- Every result of `poll` but `Poll.idle` uses up bytes: the polling loop ends. -/
theorem poll_decreases [Target] {d d' : Driver} {p : Poll} (h : d.poll = .ok (p, d'))
    (hp : p ≠ .idle) :
    d'.tx.len - d'.txInFlight + d'.rx.len < d.tx.len - d.txInFlight + d.rx.len := by
  rcases poll_inv h with ⟨htx, -, rfl⟩ | ⟨htx, o, rfl, hn, hsame⟩
  · show d.tx.len - d.tx.len + d.rx.len < _
    omega
  · have ho : o.isSome := by
      cases o with
      | none => exact absurd rfl hp
      | some o => rfl
    have hlen := (Framing.LineMachine.next_length hn).2 ho
    rw [hsame.tx, hsame.txInFlight]
    unfold HVec.len at htx ⊢
    omega

/-- Poll until `Poll.idle`; the results before it. -/
def drain [Target] (d : Driver) : Except Fault (List Poll × Driver) :=
  match h : d.poll with
  | .error f => .error f
  | .ok (p, d') =>
    if hp : p = .idle then
      .ok ([], d')
    else
      have := poll_decreases h hp
      (drain d').map fun q => (p :: q.1, q.2)
termination_by d.tx.len - d.txInFlight + d.rx.len

/-- Push the chunks one after the other and drain after each: what each drain returned, or the
first error of `pushRx`. -/
def feed [Target] (d : Driver) :
    List (List UInt8) → Except Fault (Except Error (List (List Poll)) × Driver)
  | [] => .ok (.ok [], d)
  | c :: cs =>
    match d.pushRx c with
    | .error f => .error f
    | .ok (.error e, d) => .ok (.error e, d)
    | .ok (.ok _, d) =>
      match d.drain with
      | .error f => .error f
      | .ok (ps, d) => (feed d cs).map fun q => (q.1.map (ps :: ·), q.2)

end Driver

end Rylr998
