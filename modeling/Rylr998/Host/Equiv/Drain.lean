import Rylr998.Core.Equiv.Grammar
import Rylr998.Host.Equiv.Pump

/-!
# The loops end

A poll that does not return `Poll.idle` hands out all there is to send, or takes a line of two bytes
at least off `rx`. So the loop of the host crates is over after one poll and one more for every two
bytes of `rx`, provided that no line makes `poll` panic (`poll_all_terminates`).
-/

namespace Rylr998

open Framing

section

variable [Target]

/-- Every complete line of `rx` fits `line_buf`, and its length field is not `usize::MAX`. -/
def Readable (rx : List UInt8) : Prop :=
  ∀ ls line rest, (∀ l ∈ ls, cr ∉ l) → cr ∉ line →
    rx = crlf.unlines ls ++ (line ++ cr :: lf :: rest) →
      line.length ≤ lineBufLength ∧ ¬ LengthOverflows line

theorem Readable.of_unlines_append {ls : List (List UInt8)} {rx : List UInt8}
    (hls : ∀ l ∈ ls, cr ∉ l) (h : Readable (crlf.unlines ls ++ rx)) : Readable rx := by
  intro ms line rest hms hline hrx
  exact h (ls ++ ms) line rest (List.forall_mem_append.mpr ⟨hls, hms⟩) hline (by rw [hrx]; simp)

/-- A readable line does not make `poll` panic. -/
theorem react_ne_fault {m : Mode} {line : List UInt8} (hlen : line.length ≤ lineBufLength)
    (hover : ¬ LengthOverflows line) (f : Fault) : react m line ≠ .fault f := by
  intro h
  have hs := react_spec m line
  rw [h] at hs
  cases hs with
  | long hlong => omega
  | crash p _ hp => exact hover (lengthOverflows_of_panic hp)

/-- On readable lines the line machine makes a step, and leaves readable lines. -/
theorem next_of_readable {m : Mode} {rx : List UInt8} (h : Readable rx) :
    ∃ o m' rx', driverMachine.next m rx = .ok (o, m', rx') ∧ Readable rx' := by
  cases hn : driverMachine.next m rx with
  | error f =>
    obtain ⟨skipped, line, rest, hskip, hcr, hf, hrx⟩ := LineMachine.next_error_iff.mp hn
    obtain ⟨hlen, hover⟩ := h skipped line rest hskip.not_mem hcr hrx
    exact absurd hf (react_ne_fault hlen hover f)
  | ok q =>
    obtain ⟨o, m', rx'⟩ := q
    refine ⟨o, m', rx', rfl, ?_⟩
    obtain ⟨skipped, hskip, ⟨-, -, rfl, -⟩ | ⟨line, hcr, -, rfl⟩⟩ := LineMachine.next_inv hn
    · exact h.of_unlines_append hskip.not_mem
    · have hls : ∀ l ∈ skipped ++ [line], cr ∉ l :=
        List.forall_mem_append.mpr ⟨hskip.not_mem, List.forall_mem_singleton.mpr hcr⟩
      apply Readable.of_unlines_append hls
      simpa using h

section PollAll

variable {d d' : Driver}

theorem pollAll_of_error {f : Fault} (h : d.poll = .error f) : d.pollAll = .error f := by
  rw [Driver.pollAll]
  split <;> simp_all

theorem pollAll_of_idle (h : d.poll = .ok (.idle, d')) : d.pollAll = .ok ([], d') := by
  rw [Driver.pollAll]
  split <;> simp_all

theorem pollAll_of_output {o : Output} (h : d.poll = .ok (o.poll, d')) :
    d.pollAll = d'.pollAll.map fun q => (o.poll :: q.1, q.2) := by
  rw [Driver.pollAll]
  cases o
  all_goals
    simp only [Output.poll] at h ⊢
    split <;> simp_all

theorem pollAll_of_needTx (h : d.txInFlight < d.tx.len) :
    d.pollAll =
      d.flushed.pollAll.map fun q => (.needTx (d.tx.data.drop d.txInFlight) :: q.1, q.2) := by
  have hp := Driver.poll_needTx h
  have hack := d.ackTx_handout
  rw [Driver.pollAll]
  split
  case h_5 hp' =>
    cases hp.symm.trans hp'
    split
    · next ha => cases hack.symm.trans ha
    · next ha =>
      cases hack.symm.trans ha
      rfl
  all_goals simp_all

/-- With nothing to send, every result but the last stands for two bytes of `rx` at least. -/
theorem pollAll_of_sent (hd : d.Sent) (hrx : Readable d.rx.data) :
    ∃ ps d', d.pollAll = .ok (ps, d') ∧ 2 * ps.length ≤ d.rx.len := by
  induction hlen : d.rx.len using Nat.strong_induction_on generalizing d with
  | _ n ih =>
  subst hlen
  obtain ⟨o, m, rx, hn, hreadable⟩ := next_of_readable (m := d.mode) hrx
  obtain ⟨d₁, hp, rfl, rfl, hsame⟩ := Driver.poll_of_next hd hn
  cases o with
  | none => exact ⟨[], d₁, pollAll_of_idle hp, Nat.zero_le _⟩
  | some o =>
    have hshort : d₁.rx.len + 2 ≤ d.rx.len := (LineMachine.next_length hn).2 rfl
    obtain ⟨ps, d', hall, hle⟩ := ih d₁.rx.len (by omega) (hsame.sent hd) hreadable rfl
    refine ⟨o.poll :: ps, d', ?_, ?_⟩
    · rw [pollAll_of_output hp, hall]
      rfl
    · rw [List.length_cons]
      omega

/-- **The loops end.** Where the buffered lines are readable, `poll` returns, and the loop comes to
`Poll::Idle` after one result and one more for every two bytes of `rx`, at most. -/
theorem poll_all_terminates (hrx : Readable d.rx.data) :
    (∃ p d', d.poll = .ok (p, d')) ∧
      ∃ ps d', d.pollAll = .ok (ps, d') ∧ ps.length ≤ 1 + d.rx.len / 2 := by
  rcases Nat.lt_or_ge d.txInFlight d.tx.len with htx | htx
  · obtain ⟨hsent, hsame⟩ := d.flushed_sent
    obtain ⟨ps, d', hall, hle⟩ := pollAll_of_sent hsent (by rw [hsame]; exact hrx)
    rw [hsame] at hle
    have hpoll : d.pollAll = .ok (.needTx (d.tx.data.drop d.txInFlight) :: ps, d') := by
      rw [pollAll_of_needTx htx, hall]
      rfl
    refine ⟨⟨_, _, Driver.poll_needTx htx⟩, _, d', hpoll, ?_⟩
    rw [List.length_cons]
    omega
  · obtain ⟨o, m, rx, hn, -⟩ := next_of_readable (m := d.mode) hrx
    obtain ⟨d₁, hp, -⟩ := Driver.poll_of_next htx hn
    obtain ⟨ps, d', hall, hle⟩ := pollAll_of_sent htx hrx
    exact ⟨⟨_, d₁, hp⟩, ps, d', hall, by omega⟩

section Loop

variable {ω α : Type} {writes : List (Except ω Unit)} {ps : List Poll}

theorem pollLoop_of_pollAll_sent (hd : d.Sent) (h : d.pollAll = .ok (ps, d')) :
    pollLoop (fun _ => (none : Option α)) d writes =
      .ok ⟨.idle, ps.filterMap Poll.event?, d', writes⟩ := by
  induction hlen : d.rx.len using Nat.strong_induction_on generalizing d ps with
  | _ n ih =>
  subst hlen
  cases hp : d.poll with
  | error f => cases (pollAll_of_error hp).symm.trans h
  | ok q =>
    obtain ⟨p, d₁⟩ := q
    obtain ⟨htx, -⟩ | ⟨-, o, rfl, hn, hsame⟩ := Driver.poll_inv hp
    · exact absurd htx (Nat.not_lt.mpr hd)
    cases o with
    | none =>
      cases (pollAll_of_idle hp).symm.trans h
      exact pollLoop_of_idle hp
    | some o =>
      have hshort : d₁.rx.len + 2 ≤ d.rx.len := (LineMachine.next_length hn).2 rfl
      rw [pollAll_of_output hp] at h
      obtain ⟨⟨ps₁, d₂⟩, hall, hq⟩ := Except.map_eq_ok.mp h
      obtain ⟨rfl, rfl⟩ := Prod.mk.inj hq
      have hloop := ih d₁.rx.len (by omega) (hsame.sent hd) hall rfl
      cases o with
      | response r => exact (pollLoop_of_response hp).trans hloop
      | event e =>
        rw [pollLoop_of_event hp, hloop]
        rfl

/-- The loop of the crates does what `pollAll` does, when its write succeeds and no response ends
it. -/
theorem pollLoop_of_pollAll (h : d.pollAll = .ok (ps, d')) :
    ∃ writes', pollLoop (fun _ => (none : Option α)) d (.ok () :: writes) =
      .ok ⟨.idle, ps.filterMap Poll.event?, d', writes'⟩ := by
  rcases Nat.lt_or_ge d.txInFlight d.tx.len with htx | htx
  · rw [pollAll_of_needTx htx] at h
    obtain ⟨⟨ps₁, d₂⟩, hall, hq⟩ := Except.map_eq_ok.mp h
    obtain ⟨rfl, rfl⟩ := Prod.mk.inj hq
    have hloop : pollLoop (fun _ => (none : Option α)) d.flushed writes =
        .ok ⟨.idle, ps₁.filterMap Poll.event?, d₂, writes⟩ :=
      pollLoop_of_pollAll_sent d.flushed_sent.1 hall
    exact ⟨writes, (pollLoop_of_needTx htx).trans hloop⟩
  · exact ⟨_, pollLoop_of_pollAll_sent htx h⟩

end Loop

end PollAll

theorem readable_unlines {ls : List (List UInt8)} (h : ∀ l ∈ ls, cr ∉ l ∧
    l.length ≤ lineBufLength ∧ ¬ LengthOverflows l) : Readable (crlf.unlines ls) := by
  intro ms line rest hms hline hrx
  have hall : ∀ l ∈ ms ++ [line], cr ∉ l :=
    List.forall_mem_append.mpr ⟨hms, List.forall_mem_singleton.mpr hline⟩
  obtain ⟨ns, rfl, -⟩ := crlf.exists_of_unlines_append (fun l hl => (h l hl).1) hall
    (s := rest) (by rw [hrx]; simp)
  exact (h line (by simp)).2

end

section

attribute [local instance] Target.host

/-- Two `+READY` lines behind each other. -/
def Driver.rebooting : Driver :=
  { Driver.new with rx := ⟨utf8 "+READY\r\n+READY\r\n", by decide⟩ }

theorem poll_all_terminates_ready :
    (∃ p d', Driver.rebooting.poll = .ok (p, d')) ∧
      ∃ ps d', Driver.rebooting.pollAll = .ok (ps, d') ∧
        ps.length ≤ 1 + Driver.rebooting.rx.len / 2 := by
  have hover : ¬ LengthOverflows (utf8 "+READY") := by
    rintro ⟨a, l, rest, ⟨hline, -⟩, -⟩
    exact append_ne_of_ne (by decide) hline.symm
  have hreadable : Readable (crlf.unlines [utf8 "+READY", utf8 "+READY"]) := by
    apply readable_unlines
    intro l hl
    obtain rfl : l = utf8 "+READY" := by simpa using hl
    exact ⟨by decide, by decide, hover⟩
  exact poll_all_terminates hreadable

end

end Rylr998
