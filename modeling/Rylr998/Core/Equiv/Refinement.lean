import Rylr998.Core.Equiv.Runs

/-!
# What becomes of the received bytes

In a run without overflow the bytes pushed are a list of consumed lines and what is still in `rx`,
and the events and responses returned are the outputs of these lines in order (`rx_refinement`).
The lines are the log of an abstract machine that takes one line at a time; `Consumes` is its rule.
-/

namespace Rylr998

open Framing

/-- A line that the driver has consumed. -/
structure Consumed where
  /-- The position of the `poll` that consumed it among the operations. -/
  index : Nat
  line : List UInt8
  out : Option Output

/-- The abstract machine's rule: a driver in the state of `d` may consume the line with this
output. -/
inductive Consumes [Target] (d : Driver) (line : List UInt8) : Option Output → Prop
  | event (e : Event) : isEventLine line = true →
    ¬ (d.awaitingReadyAsOk = true ∧ line = utf8 "+READY") → (parseEvent line).run = .ok (.ok e) →
    Consumes d line (some (.event e))
  | rejectedEvent (e : Error) : isEventLine line = true → (parseEvent line).run = .ok (.error e) →
    Consumes d line none
  | ready : d.awaitingReadyAsOk = true → line = utf8 "+READY" →
    Consumes d line (some (.response .ok))
  | reset : d.awaitingReadyAsOk = true → startsWith line (utf8 "+RESET") = true →
    Consumes d line none
  | reply (kind : AwaitKind) (r : Response) : isEventLine line = false →
    d.state = .awaiting kind → Driver.responseMatches kind line = true →
    parseResponse line = .ok r → Consumes d line (some (.response r))
  | rejectedReply (kind : AwaitKind) (e : Error) : isEventLine line = false →
    d.state = .awaiting kind → Driver.responseMatches kind line = true →
    parseResponse line = .error e → Consumes d line none

section

variable [Target]

theorem consumes_of_skip {d : Driver} {line : List UInt8} (h : react d.mode line = .skip) :
    Consumes d line none := by
  have hs := react_spec d.mode line
  rw [h] at hs
  cases hs with
  | reset _ hflag hreset => exact .reset hflag hreset

theorem consumes_of_take {d : Driver} {line : List UInt8} {o : Option Output} {m : Mode}
    (h : react d.mode line = .take o m) : Consumes d line o := by
  have hs := react_spec d.mode line
  rw [h] at hs
  cases hs with
  | ready hflag hline => exact .ready hflag hline
  | event e _ hevent hready hparse => exact .event e hevent hready hparse
  | rejected e _ hevent hparse => exact .rejectedEvent e hevent hparse
  | reply kind _ hstate hevent hm =>
    unfold replyOutput
    cases hp : parseResponse line with
    | ok r => exact .reply kind r hevent hstate hm hp
    | error e => exact .rejectedReply kind e hevent hstate hm hp

/-- The log explains the calls `calls` of the operations `ops` and the state `d` they end in. -/
structure Explains (log : List Consumed) (ops : List Op) (calls : List Call) (d : Driver) :
    Prop where
  /-- The bytes pushed are the consumed lines and what is left in `rx`. -/
  bytes : pushed calls = crlf.unlines (log.map Consumed.line) ++ d.rx.data
  /-- No consumed line contains a `\r`. -/
  cr_not_mem : ∀ x ∈ log, cr ∉ x.line
  /-- The events and responses returned are the outputs of the consumed lines. -/
  outputs_eq : outputs calls = log.filterMap Consumed.out
  /-- The lines are consumed in the order of the calls. -/
  sorted : (log.map Consumed.index).Pairwise (· ≤ ·)
  /-- Each line is consumed by a `poll`, which returns its output if it has one, by the rule for
  the state that the operations before that `poll` lead to. -/
  rule : ∀ x ∈ log, ∃ before d₀ p, Runs (ops.take x.index) before d₀ ∧
    calls[x.index]? = some (.poll p) ∧ (∀ o, x.out = some o → p = o.poll) ∧ Consumes d₀ x.line x.out

/-- The lines that one `poll` consumes. -/
theorem exists_consumed {d d' : Driver} {o : Option Output}
    (h : driverMachine.next d.mode d.rx.data = .ok (o, d'.mode, d'.rx.data)) (i : Nat) :
    ∃ xs : List Consumed, d.rx.data = crlf.unlines (xs.map Consumed.line) ++ d'.rx.data ∧
      xs.filterMap Consumed.out = o.toList ∧
      ∀ x ∈ xs, x.index = i ∧ cr ∉ x.line ∧ (∀ o', x.out = some o' → o = some o') ∧
        Consumes d x.line x.out := by
  obtain ⟨skipped, hskip, hcase⟩ := LineMachine.next_inv h
  have hskipped : ∀ x ∈ skipped.map (Consumed.mk i · none), x.index = i ∧ cr ∉ x.line ∧
      (∀ o', x.out = some o' → o = some o') ∧ Consumes d x.line x.out := by
    intro x hx
    obtain ⟨s, hs, rfl⟩ := List.mem_map.mp hx
    exact ⟨rfl, (hskip s hs).1, nofun, consumes_of_skip (hskip s hs).2⟩
  have hlines : (skipped.map (Consumed.mk i · none)).map Consumed.line = skipped := by
    simp [Function.comp_def]
  have houts : (skipped.map (Consumed.mk i · none)).filterMap Consumed.out = [] := by
    simp
  -- the step consumes the skipped lines, and at most one line that is taken
  rcases hcase with ⟨rfl, -, hrx, -⟩ | ⟨l, hl, hr, hrx⟩
  · exact ⟨_, by rw [hlines]; exact hrx, houts, hskipped⟩
  · refine ⟨skipped.map (Consumed.mk i · none) ++ [⟨i, l, o⟩], ?_, ?_, fun x hx => ?_⟩
    · rw [List.map_append, hlines]
      simpa using hrx
    · rw [List.filterMap_append, houts]
      cases o <;> rfl
    · rcases List.mem_append.mp hx with hx | hx
      · exact hskipped x hx
      · obtain rfl := List.mem_singleton.mp hx
        exact ⟨rfl, hl, fun _ ho => ho, consumes_of_take hr⟩

theorem Explains.index_lt {log : List Consumed} {ops : List Op} {calls : List Call} {d : Driver}
    (h : Explains log ops calls d) {x : Consumed} (hx : x ∈ log) : x.index < calls.length := by
  obtain ⟨_, _, p, -, hp, -⟩ := h.rule x hx
  exact (List.getElem?_eq_some_iff.mp hp).1

/-- A call that consumes the lines `xs`. -/
theorem Explains.append {log xs : List Consumed} {ops : List Op} {op : Op} {calls : List Call}
    {c : Call} {d d' : Driver} (h : Explains log ops calls d) (hrun : Runs ops calls d)
    (hbytes : d.rx.data ++ c.pushed = crlf.unlines (xs.map Consumed.line) ++ d'.rx.data)
    (hout : xs.filterMap Consumed.out = c.output?.toList)
    (hxs : ∀ x ∈ xs, x.index = calls.length ∧ cr ∉ x.line ∧
      (∃ p, c = .poll p ∧ ∀ o, x.out = some o → p = o.poll) ∧ Consumes d x.line x.out) :
    Explains (log ++ xs) (ops ++ [op]) (calls ++ [c]) d' where
  bytes := by
    rw [pushed_append, pushed_singleton, h.bytes, List.append_assoc, hbytes]
    simp
  cr_not_mem x hx := by
    rcases List.mem_append.mp hx with hx | hx
    · exact h.cr_not_mem x hx
    · exact (hxs x hx).2.1
  outputs_eq := by
    rw [outputs_append, outputs_singleton, h.outputs_eq, List.filterMap_append, hout]
  sorted := by
    rw [List.map_append, List.pairwise_append]
    refine ⟨h.sorted, ?_, ?_⟩
    · rw [List.pairwise_map]
      exact List.Pairwise.imp_of_mem (R := fun _ _ => True)
        (fun ha hb _ => by rw [(hxs _ ha).1, (hxs _ hb).1])
        (List.pairwise_of_forall fun _ _ => trivial)
    · intro a ha b hb
      obtain ⟨x, hx, rfl⟩ := List.mem_map.mp ha
      obtain ⟨y, hy, rfl⟩ := List.mem_map.mp hb
      rw [(hxs y hy).1]
      exact Nat.le_of_lt (h.index_lt hx)
  rule x hx := by
    have hlen : calls.length = ops.length := Component.run_length hrun
    rcases List.mem_append.mp hx with hx | hx
    · obtain ⟨before, d₀, p, hr, hp, hrest⟩ := h.rule x hx
      have hlt := h.index_lt hx
      refine ⟨before, d₀, p, ?_, ?_, hrest⟩
      · rwa [List.take_append_of_le_length (by omega)]
      · rwa [List.getElem?_append_left hlt]
    · obtain ⟨hi, -, ⟨p, rfl, hp⟩, hc⟩ := hxs x hx
      refine ⟨calls, d, p, ?_, ?_, hp, hc⟩
      · rw [hi, hlen, List.take_left' rfl]
        exact hrun
      · rw [hi]
        simp

/-- **Refinement.** In a run without overflow there is a log of consumed lines that explains what
was pushed, what was returned and what is left. -/
theorem rx_refinement {ops : List Op} {calls : List Call} {d : Driver} (h : Runs ops calls d)
    (hfit : ∀ bytes e, .pushRx bytes (.error e) ∉ calls) : ∃ log, Explains log ops calls d := by
  revert hfit
  refine Component.run_induction (P := fun ops calls d =>
    (∀ bytes e, .pushRx bytes (.error e) ∉ calls) → ∃ log, Explains log ops calls d)
    ?_ ?_ ops calls d h
  · exact fun _ => ⟨[], rfl, by simp, rfl, .nil, by simp⟩
  · intro ops calls d op c d' hrun ih hstep hfit
    obtain ⟨log, hlog⟩ := ih fun bytes e hmem => hfit bytes e (List.mem_append_left _ hmem)
    -- a call other than `poll` on the lines consumes nothing
    have hnone (hbytes : d.rx.data ++ c.pushed = d'.rx.data) (hout : c.output? = none) :
        ∃ log, Explains log (ops ++ [op]) (calls ++ [c]) d' := by
      refine ⟨log ++ [], hlog.append hrun ?_ ?_ nofun⟩
      · simpa using hbytes
      · rw [hout]; rfl
    cases Driver.step_spec (Runs.inv hrun) hstep with
    | busy | refuse | accept | ack | sent | needTx => exact hnone (List.append_nil _) rfl
    | push => exact hnone rfl rfl
    | overflow bytes => exact absurd (List.mem_append_right _ List.mem_cons_self) (hfit bytes _)
    | lines o _ _ hn _ =>
      obtain ⟨xs, hrx, hout, hxs⟩ := exists_consumed hn calls.length
      refine ⟨log ++ xs, hlog.append hrun ?_ ?_ fun x hx => ?_⟩
      · rw [← hrx]
        exact List.append_nil _
      · rw [hout, output?_pollOf]
      · obtain ⟨hi, hcr, ho, hc⟩ := hxs x hx
        exact ⟨hi, hcr, ⟨_, rfl, fun o' ho' => by rw [ho o' ho']; rfl⟩, hc⟩

end

section

attribute [local instance] Target.host

/-- A boot announcement, pushed and polled. -/
theorem rx_refinement_ready : ∃ log, Explains log [.pushRx (utf8 "+READY\r\n"), .poll]
    [.pushRx (utf8 "+READY\r\n") (.ok 8), .poll (.event .ready)]
    (Driver.new.copyLine (utf8 "+READY")) :=
  rx_refinement (by unfold Runs; decide +kernel) (by simp)

end

end Rylr998
