import Rylr998.Core.Equiv.Lines
import Rylr998.Host.Equiv.Task
import Rylr998.Lib.Located

/-!
# Events glued together

`push_rx` keeps what fits and reports an overflow, and the task throws the report away. From then
on two bytes that are adjacent in `rx` may not have been adjacent in the stream. `Arrival` notes,
beside a run of the task, where in the stream each byte of `rx` stood. As long as no poll takes an
event line with a gap inside, every event sent is parsed from a piece of the stream (`no_splice`).
-/

namespace Rylr998.Tokio

open Framing

/-- The byte stream that the task has read. -/
def streamOf (is : List Input) : List UInt8 := is.flatMap Input.bytes

/-- The event is parsed from a line of the stream, terminator included. -/
def FromStream [Target] (stream : List UInt8) (e : Event) : Prop :=
  ∃ line, line ++ [cr, lf] <:+: stream ∧ (parseEvent line).run = .ok (.ok e)

/-- Where the bytes of `rx` come from. -/
structure Arrival where
  /-- The number of bytes read so far. -/
  count : Nat
  /-- The position in the stream of each byte of `rx`. -/
  marks : List Nat
  deriving DecidableEq

/-- The notes after a step: what is new in `rx` are the first of the bytes that the step reads. -/
def arrivalNote (t : Task) (i : Input) (_ : Effect) (t' : Task) (a : Arrival) : Arrival :=
  ⟨a.count + i.bytes.length,
    a.marks.drop (t.driver.rx.len - t'.driver.rx.len) ++
      List.range' a.count (t'.driver.rx.len - t.driver.rx.len)⟩

/-- A run of the task with notes on the bytes of `rx`. -/
def ArrivalRuns [Target] (is : List Input) (es : List Effect) (t : Task) (a : Arrival) : Prop :=
  Component.run (Component.noted Task.step arrivalNote) (.spawned, ⟨0, []⟩) is = .ok (es, t, a)

/-- The first line of `rx` that is not skipped is an event that the mode passes on, and bytes of the
stream are missing inside of it. -/
def GapInEvent [Target] (m : Mode) (rx : List UInt8) (marks : List Nat) : Prop :=
  ∃ skipped line rest e, driverMachine.Skips m skipped ∧ cr ∉ line ∧
    line.length ≤ lineBufLength ∧ IsEvent line e ∧
    ¬ (m.awaitingReadyAsOk = true ∧ line = utf8 "+READY") ∧
    rx = crlf.unlines skipped ++ (line ++ cr :: lf :: rest) ∧
    ¬ ∃ start, (marks.drop (crlf.unlines skipped).length).take (line.length + 2) =
      List.range' start (line.length + 2)

/-- The step takes an event line with a gap inside off `rx`. -/
def Task.Splices [Target] (t : Task) (i : Input) (a : Arrival) : Prop :=
  i = .poll ∧ (t.place = .idleDrain ∨ ∃ job, t.place = .jobDrain job) ∧ t.driver.Sent ∧
    GapInEvent t.driver.mode t.driver.rx.data a.marks

theorem streamOf_append (is js : List Input) : streamOf (is ++ js) = streamOf is ++ streamOf js :=
  List.flatMap_append

theorem streamOf_singleton (i : Input) : streamOf [i] = i.bytes := by simp [streamOf]

theorem FromStream.extend [Target] {stream : List UInt8} {e : Event} (h : FromStream stream e)
    (more : List UInt8) : FromStream (stream ++ more) e := by
  obtain ⟨line, hin, hparse⟩ := h
  exact ⟨line, hin.trans (List.prefix_append _ _).isInfix, hparse⟩

/-! ### The notes -/

/-- The notes say where the bytes of `rx` stand. -/
structure Arrived (stream : List UInt8) (t : Task) (a : Arrival) : Prop where
  count : a.count = stream.length
  located : Located stream a.marks t.driver.rx.data

theorem arrived_spawned : Arrived [] .spawned ⟨0, []⟩ := ⟨rfl, rfl⟩

/-- A step appends what fits of the bytes it reads to `rx`, or takes bytes off its front. -/
theorem Task.rx_of_step [Target] {t t' : Task} {i : Input} {eff : Effect} (hinv : t.Inv)
    (h : t.step i = .ok (eff, t')) :
    t'.driver.rx.data = t.driver.rx.data ++ i.bytes.take (rxBuf - t.driver.rx.len) ∨
      i.bytes = [] ∧ ∃ k, k ≤ t.driver.rx.len ∧ t'.driver.rx.data = t.driver.rx.data.drop k := by
  rcases (Task.step_spec h).driver with ⟨hd, -, hbytes⟩ | ⟨op, c, hd, -, hbytes⟩
  · exact Or.inr ⟨hbytes, 0, Nat.zero_le _, by rw [hd]; rfl⟩
  · rw [hbytes]
    exact Driver.step_rx hinv.driver hd

/-- The notes after a step, by what it has done to `rx`. -/
theorem arrivalNote_eq [Target] {t t' : Task} {i : Input} {eff : Effect} (hinv : t.Inv)
    (h : t.step i = .ok (eff, t')) (a : Arrival) :
    (∃ n, n = min (rxBuf - t.driver.rx.len) i.bytes.length ∧
      t'.driver.rx.data = t.driver.rx.data ++ i.bytes.take n ∧
      arrivalNote t i eff t' a = ⟨a.count + i.bytes.length, a.marks ++ List.range' a.count n⟩) ∨
    (i.bytes = [] ∧ ∃ k, k ≤ t.driver.rx.len ∧ t'.driver.rx.data = t.driver.rx.data.drop k ∧
      arrivalNote t i eff t' a = ⟨a.count, a.marks.drop k⟩) := by
  unfold arrivalNote
  rcases Task.rx_of_step hinv h with hrx | ⟨hbytes, k, hk, hrx⟩
  · refine Or.inl ⟨min (rxBuf - t.driver.rx.len) i.bytes.length, rfl, ?_, ?_⟩
    · rw [hrx, List.take_eq_take_min]
    · have hlen : t'.driver.rx.len =
          t.driver.rx.len + min (rxBuf - t.driver.rx.len) i.bytes.length := by
        rw [HVec.len, hrx, List.length_append, List.length_take]
        rfl
      rw [hlen, Nat.add_sub_cancel_left, Nat.sub_eq_zero_of_le (Nat.le_add_right _ _)]
      rfl
  · refine Or.inr ⟨hbytes, k, hk, hrx, ?_⟩
    have hlen : t'.driver.rx.len = t.driver.rx.len - k := by
      rw [HVec.len, hrx, List.length_drop]
      rfl
    rw [hbytes, hlen, Nat.sub_sub_self hk, Nat.sub_eq_zero_of_le (Nat.sub_le _ _)]
    simp

theorem arrived_step [Target] {stream : List UInt8} {t t' : Task} {i : Input} {eff : Effect}
    {a : Arrival} (hinv : t.Inv) (ha : Arrived stream t a) (h : t.step i = .ok (eff, t')) :
    Arrived (stream ++ i.bytes) t' (arrivalNote t i eff t' a) := by
  rcases arrivalNote_eq hinv h a with ⟨n, hn, hrx, hnote⟩ | ⟨hbytes, k, -, hrx, hnote⟩
  · rw [hnote]
    refine ⟨?_, ?_⟩
    · show a.count + i.bytes.length = (stream ++ i.bytes).length
      rw [ha.count, List.length_append]
    · show Located (stream ++ i.bytes) (a.marks ++ List.range' a.count n) t'.driver.rx.data
      rw [hrx, ha.count]
      exact ha.located.push (hn ▸ Nat.min_le_right _ _)
  · rw [hnote, hbytes, List.append_nil]
    refine ⟨ha.count, ?_⟩
    show Located stream (a.marks.drop k) t'.driver.rx.data
    rw [hrx]
    exact ha.located.drop k

/-! ### Events -/

/-- An event that a poll takes without a gap is parsed from the stream. -/
theorem fromStream_of_poll [Target] {stream : List UInt8} {d d' : Driver} {e : Event}
    {marks : List Nat} (hloc : Located stream marks d.rx.data) (hd : d.Sent)
    (hgap : ¬ GapInEvent d.mode d.rx.data marks) (h : d.poll = .ok (.event e, d')) :
    FromStream stream e := by
  obtain ⟨o, ho, hnext⟩ := Driver.poll_next hd h
  have hout : some (Output.event e) = o := pollOf_injective ho
  subst hout
  obtain ⟨skipped, hskip, ⟨ho, -⟩ | ⟨line, hcr, hreact, hrx⟩⟩ := LineMachine.next_inv hnext
  · cases ho
  obtain ⟨hlen, hevent, hready, -⟩ := react_event_iff.mp hreact
  have hstart : ∃ start, (marks.drop (crlf.unlines skipped).length).take (line.length + 2) =
      List.range' start (line.length + 2) := by
    by_contra hno
    exact hgap ⟨skipped, line, _, e, hskip, hcr, hlen, hevent, hready, hrx, hno⟩
  obtain ⟨start, hmarks⟩ := hstart
  refine ⟨line, ?_, parseEvent_of_isEvent hevent hlen⟩
  have hline := (hloc.drop (crlf.unlines skipped).length).take (line.length + 2)
  have hbytes : (d.rx.data.drop (crlf.unlines skipped).length).take (line.length + 2) =
      line ++ [cr, lf] := by
    rw [hrx]
    simp [List.take_append]
  rw [hmarks, hbytes] at hline
  exact hline.isInfix

/-- What holds as long as no step splices an event. -/
structure SpliceFree [Target] (is : List Input) (es : List Effect) (t : Task) (a : Arrival) :
    Prop where
  arrived : Arrived (streamOf is) t a
  /-- The event that the task is sending comes from the stream. -/
  sending : ∀ e place', t.place.sending = some (e, place') → FromStream (streamOf is) e
  /-- So do the events that it has sent. -/
  sent : ∀ eff ∈ es, ∀ e, eff.sent = some e → FromStream (streamOf is) e

/-- The event that a step takes from the driver comes from the stream. -/
theorem sending_of_step [Target] {stream : List UInt8} {t t' : Task} {i : Input} {eff : Effect}
    {a : Arrival} (hinv : t.Inv) (hloc : Located stream a.marks t.driver.rx.data)
    (hno : ¬ t.Splices i a) (h : t.step i = .ok (eff, t')) {e : Event} {place' : Place}
    (hsending : t'.place.sending = some (e, place')) : FromStream stream e := by
  cases Task.step_spec h with
  | refuse | accept | finish | unread | unsent | write | answer | drained | written | giveUp =>
    cases hsending
  | push hafter => cases (Place.sending_of_afterRead hafter).symm.trans hsending
  | sent hplace => cases (Place.sending_of_sending hplace).symm.trans hsending
  | @idlePoll d d' p hpoll =>
    have hsent : d.Sent := hinv.sent (by simp)
    cases p with
    | event e₁ =>
      cases hsending
      refine fromStream_of_poll hloc hsent ?_ hpoll
      intro hgap
      exact hno ⟨rfl, Or.inl rfl, hsent, hgap⟩
    | idle | needTx | response => cases hsending
  | @event d d' job e₁ hpoll =>
    cases hsending
    have hsent : d.Sent := Driver.sent_of_poll_ne hpoll (by simp)
    refine fromStream_of_poll hloc hsent ?_ hpoll
    intro hgap
    exact hno ⟨rfl, Or.inr ⟨job, rfl⟩, hsent, hgap⟩

/-- The event that a step sends is the one that the task was sending. -/
theorem sent_of_step [Target] {t t' : Task} {i : Input} {eff : Effect} {e : Event}
    (h : t.step i = .ok (eff, t')) (hsent : eff.sent = some e) :
    ∃ place', t.place.sending = some (e, place') := by
  cases Task.step_spec h with
  | @sent d place place' e' hplace =>
    cases hsent
    exact ⟨place', hplace⟩
  | refuse | accept | finish | unread | unsent | write | answer | drained | written | giveUp
  | push | idlePoll | event => cases hsent

theorem spliceFree_step [Target] {is : List Input} {es : List Effect} {t t' : Task} {i : Input}
    {eff : Effect} {a : Arrival} (hinv : t.Inv) (hfree : SpliceFree is es t a)
    (hno : ¬ t.Splices i a) (h : t.step i = .ok (eff, t')) :
    SpliceFree (is ++ [i]) (es ++ [eff]) t' (arrivalNote t i eff t' a) := by
  have harr := arrived_step hinv hfree.arrived h
  rw [← streamOf_singleton i, ← streamOf_append] at harr
  refine ⟨harr, ?_, ?_⟩
  · intro e place' hsending
    rw [streamOf_append]
    exact (sending_of_step hinv hfree.arrived.located hno h hsending).extend _
  · intro eff' heff e he
    rw [streamOf_append]
    rcases List.mem_append.mp heff with hold | hnew
    · exact (hfree.sent eff' hold e he).extend _
    · obtain rfl := List.mem_singleton.mp hnew
      obtain ⟨place', hplace⟩ := sent_of_step h he
      exact (hfree.sending e place' hplace).extend _

/-! ### Runs without overflow -/

/-- `rx` has room for all that the run reads. -/
def Fits [Target] (is : List Input) : Prop :=
  ∀ pre i es t, pre ++ [i] <+: is → TaskRuns pre es t → t.driver.rx.len + i.bytes.length ≤ rxBuf

/-- The bytes of `rx` are the last ones of the stream. -/
def Arrival.Whole (a : Arrival) : Prop :=
  ∃ start n, a.marks = List.range' start n ∧ a.count = start + n

theorem whole_step [Target] {stream : List UInt8} {t t' : Task} {i : Input} {eff : Effect}
    {a : Arrival} (hinv : t.Inv) (ha : Arrived stream t a) (hwhole : a.Whole)
    (hfit : t.driver.rx.len + i.bytes.length ≤ rxBuf) (h : t.step i = .ok (eff, t')) :
    (arrivalNote t i eff t' a).Whole := by
  obtain ⟨start, n, hmarks, hcount⟩ := hwhole
  rcases arrivalNote_eq hinv h a with ⟨k, hk, -, hnote⟩ | ⟨-, k, hk, -, hnote⟩
  · rw [hnote]
    have hall : k = i.bytes.length := by omega
    refine ⟨start, n + k, ?_, ?_⟩
    · show a.marks ++ List.range' a.count k = List.range' start (n + k)
      rw [hmarks, hcount, List.range'_append_1]
    · show a.count + i.bytes.length = start + (n + k)
      omega
  · have hlen : n = t.driver.rx.len := by
      have hlen := ha.located.length_eq
      rwa [hmarks, List.length_range'] at hlen
    rw [hnote]
    refine ⟨start + k, n - k, ?_, ?_⟩
    · show a.marks.drop k = List.range' (start + k) (n - k)
      rw [hmarks, List.drop_range', Nat.mul_one]
    · show a.count = start + k + (n - k)
      omega

theorem not_gapInEvent_of_whole [Target] {m : Mode} {rx : List UInt8} {a : Arrival}
    (hlen : a.marks.length = rx.length) (hwhole : a.Whole) : ¬ GapInEvent m rx a.marks := by
  rintro ⟨skipped, line, rest, e, -, -, -, -, -, hrx, hgap⟩
  obtain ⟨start, n, hmarks, -⟩ := hwhole
  rw [hmarks, List.length_range', hrx] at hlen
  refine hgap ⟨start + (crlf.unlines skipped).length, ?_⟩
  have hle : line.length + 2 ≤ n - (crlf.unlines skipped).length := by
    rw [hlen]
    simp
  rw [hmarks, List.drop_range', Nat.mul_one, List.take_range'_of_length_ge hle]

/-- Without overflow no event is spliced. -/
theorem not_splices_of_fits [Target] {is : List Input} (hfits : Fits is) {pre : List Input}
    {es : List Effect} {t : Task} {a : Arrival} (hpre : pre <+: is) (h : ArrivalRuns pre es t a)
    (i : Input) : ¬ t.Splices i a := by
  have hkeep : pre <+: is → Arrived (streamOf pre) t a ∧ a.Whole := by
    refine Component.run_noted_induction
      (P := fun pre es t a => pre <+: is → Arrived (streamOf pre) t a ∧ a.Whole)
      (fun _ => ⟨arrived_spawned, 0, 0, rfl, rfl⟩) ?_ pre es t a h
    intro pre es t a i eff t' hr ih hstep hpre
    have hrun : TaskRuns pre es t := Component.run_of_noted hr
    obtain ⟨harr, hwhole⟩ := ih ((List.prefix_append pre [i]).trans hpre)
    rw [streamOf_append, streamOf_singleton]
    exact ⟨arrived_step hrun.inv harr hstep,
      whole_step hrun.inv harr hwhole (hfits pre i es t hpre hrun) hstep⟩
  obtain ⟨harr, hwhole⟩ := hkeep hpre
  rintro ⟨-, -, -, hgap⟩
  exact not_gapInEvent_of_whole harr.located.length_eq hwhole hgap

/-- `rx` holds no more than has been read. -/
theorem TaskRuns.rx_len_le [Target] {is : List Input} {es : List Effect} {t : Task}
    (h : TaskRuns is es t) : t.driver.rx.len ≤ (streamOf is).length := by
  refine Component.run_induction (P := fun is _ t => t.driver.rx.len ≤ (streamOf is).length)
    (Nat.le_refl 0) ?_ is es t h
  intro is es t i eff t' hr ih hstep
  rw [streamOf_append, streamOf_singleton, List.length_append]
  rcases Task.rx_of_step (TaskRuns.inv hr) hstep with hrx | ⟨-, k, -, hrx⟩
  · rw [HVec.len, hrx, List.length_append]
    have htake : (i.bytes.take (rxBuf - t.driver.rx.len)).length ≤ i.bytes.length :=
      List.length_take_le' _ _
    exact Nat.add_le_add ih htake
  · rw [HVec.len, hrx, List.length_drop]
    have hlen : t.driver.rx.data.length ≤ (streamOf is).length := ih
    omega

/-- A stream that is no longer than `rx` never overflows it. -/
theorem fits_of_short [Target] {is : List Input} (h : (streamOf is).length ≤ rxBuf) : Fits is := by
  intro pre i es t hpre hr
  obtain ⟨more, rfl⟩ := hpre
  rw [streamOf_append, streamOf_append, streamOf_singleton, List.length_append,
    List.length_append] at h
  have hle := hr.rx_len_le
  omega

/-! ### Every event that is sent -/

/-- **No spliced message.** In a run in which no poll takes an event line with a gap inside, every
event that the task sends is parsed from a line of the byte stream. -/
theorem no_splice [Target] {is : List Input} {es : List Effect} {t : Task} (h : TaskRuns is es t)
    (hno : ∀ pre i es t a, pre ++ [i] <+: is → ArrivalRuns pre es t a → ¬ t.Splices i a) :
    ∀ eff ∈ es, ∀ e, eff.sent = some e → FromStream (streamOf is) e := by
  have hnotes : ∃ a, ArrivalRuns is es t a := Component.exists_run_noted h _
  obtain ⟨a, hnoted⟩ := hnotes
  have hfree : SpliceFree is es t a := by
    refine Component.run_noted_induction (P := fun pre es t a => pre <+: is → SpliceFree pre es t a)
      ?_ ?_ is es t a hnoted (List.prefix_refl _)
    · intro _
      refine ⟨arrived_spawned, ?_, by simp⟩
      intro e place' hsending
      cases hsending
    · intro pre es t a i eff t' hr ih hstep hpre
      have hfree := ih ((List.prefix_append pre [i]).trans hpre)
      have hinv : t.Inv := TaskRuns.inv (Component.run_of_noted hr)
      exact spliceFree_step hinv hfree (hno pre i es t a hpre hr) hstep
  exact hfree.sent

section

attribute [local instance] Target.host

/-- A task that reads `+READY` and sends it. -/
def readyRun : List Input := [.read (.ok ⟨utf8 "+READY\r\n", by decide⟩), .poll, .sent, .poll]

theorem no_splice_ready : FromStream (streamOf readyRun) .ready := by
  have hrun : TaskRuns readyRun [{}, { poll := some (.event .ready) }, { sent := some .ready },
      { poll := some .idle }] ⟨{ Driver.new.copyLine (utf8 "+READY") with rx := .new },
        .selecting⟩ := by
    unfold TaskRuns
    decide +kernel
  refine no_splice hrun ?_ { sent := some .ready } (by decide) .ready rfl
  intro pre i es t a hpre hr
  exact not_splices_of_fits (fits_of_short (by decide))
    ((List.prefix_append pre [i]).trans hpre) hr i

/-- `+RCV=1,231,A…A,0,0`, the longest message of 231 bytes that one read can bring. -/
def longLine : List UInt8 := utf8 "+RCV=1,231," ++ List.replicate 231 65 ++ utf8 ",0,0"

/-- A reply that nothing awaits, two long messages that it holds back, and a short one that does
not fit any more. -/
def overflowing : List Input :=
  [.read (.ok ⟨utf8 "+OK\r\n", by decide⟩), .poll,
    .read (.ok ⟨longLine ++ [cr, lf], by decide +kernel⟩), .poll,
    .read (.ok ⟨longLine ++ [cr, lf], by decide +kernel⟩), .poll,
    .read (.ok ⟨utf8 "+RCV=1,1,A,0,0\r\n", by decide⟩), .poll,
    .job ⟨.ping, 0⟩, .poll, .written (.ok ()), .poll,
    .read (.ok ⟨utf8 "9,9\r\n", by decide⟩), .poll, .sent, .poll, .sent, .poll, .sent]

/-- The event that is parsed from the beginning of the short message and the end of its rest. -/
def splicedEvent : Event := .recv 1 (utf8 "A") 9 9

theorem splicedEvent_sent : ∃ es t, TaskRuns overflowing es t ∧
    ∃ eff ∈ es, eff.sent = some splicedEvent := by
  have hrun : (Component.run Task.step .spawned overflowing).map
      (fun p => p.1.getLast?.bind Effect.sent) = .ok (some splicedEvent) := by
    decide +kernel
  obtain ⟨⟨es, t⟩, hr, hlast⟩ := Except.map_eq_ok.mp hrun
  obtain ⟨eff, heff, hsent⟩ := Option.bind_eq_some_iff.mp hlast
  exact ⟨es, t, hr, eff, List.mem_of_getLast? heff, hsent⟩

/-- The lines of the stream. -/
def overflowingLines : List (List UInt8) :=
  [utf8 "+OK", longLine, longLine, utf8 "+RCV=1,1,A,0,0", utf8 "9,9"]

/-- No part of the stream that ends with a line is parsed to the event. -/
theorem not_fromStream_splicedEvent : ¬ FromStream (streamOf overflowing) splicedEvent := by
  rintro ⟨line, hin, hparse⟩
  -- neither half of the terminator is in a line of that event
  obtain ⟨hcr, hlf⟩ : cr ∉ line ∧ lf ∉ line := by
    rcases isEvent_of_parseEvent hparse with h | ⟨-, h⟩
    · exact ⟨h.not_mem (by decide) (by decide), h.not_mem (by decide) (by decide)⟩
    · cases h
  have hlines : streamOf overflowing = crlf.unlines overflowingLines := by decide +kernel
  have hclean : ∀ x ∈ overflowingLines, cr ∉ x := by decide +kernel
  rw [hlines] at hin
  obtain ⟨x, hx, hsuffix⟩ := crlf.exists_suffix_of_isInfix hclean hcr hlf hin
  have hno : ∀ x ∈ overflowingLines, ∀ s ∈ x.tails,
      (parseEvent s).run ≠ .ok (.ok splicedEvent) := by
    decide +kernel
  exact hno x hx line ((List.mem_tails _ _).mpr hsuffix) hparse

/-- Two lines that overflow has glued together are sent as one message. -/
theorem tokio_splices_message : ¬ ∀ is es t, TaskRuns is es t → ∀ eff ∈ es, ∀ e,
    eff.sent = some e → FromStream (streamOf is) e := by
  intro hnone
  obtain ⟨es, t, hr, eff, heff, hsent⟩ := splicedEvent_sent
  exact not_fromStream_splicedEvent (hnone _ es t hr eff heff _ hsent)

end

end Rylr998.Tokio
