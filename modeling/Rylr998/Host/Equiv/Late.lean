import Rylr998.Core.Equiv.Vanish
import Rylr998.Host.Equiv.Turns

/-!
# Replies that come with the last read

After each read `Radio::pump_until` of the blocking radio looks at the clock before it looks at what
it has read. When the time is up, a reply among the buffered lines is not looked at any more: the
call returns `Error::Timeout`, and polling the driver returns the response. It does not exactly when
no reply is ahead in `rx` at that moment (`timeout_iff`). The loops of the other two crates look at
every line before they give up.
-/

namespace Rylr998

open Framing

/-! ### The reply is among the buffered lines -/

/-- Polling again and again, with no other call in between, a poll returns a response. -/
inductive Driver.Responds [Target] : Driver → Prop
  | now {d d' : Driver} {r : Response} : d.poll = .ok (.response r, d') → Responds d
  | later {d d' : Driver} {p : Poll} : d.poll = .ok (p, d') → Responds d' → Responds d

/-- The line is the reply that the driver waits for. -/
def Mode.Replies (m : Mode) (line : List UInt8) : Prop :=
  m.awaitingReadyAsOk = true ∧ line = utf8 "+READY" ∨
    line.length ≤ lineBufLength ∧ ∃ kind r, m.state = .awaiting kind ∧ IsReply kind line r

/-- Behind `+RESET` lines of a factory reset and lines that begin like events, well formed or not,
`rx` has the reply that the driver waits for. -/
inductive Mode.ReplyAhead [Target] (m : Mode) : List UInt8 → Prop
  | reply {line rest : List UInt8} : cr ∉ line → m.Replies line →
    m.ReplyAhead (line ++ cr :: lf :: rest)
  | passes {line rest : List UInt8} : cr ∉ line → m.Passes line → m.ReplyAhead rest →
    m.ReplyAhead (line ++ cr :: lf :: rest)
  | malformed {line rest : List UInt8} : cr ∉ line → Malformed line → m.ReplyAhead rest →
    m.ReplyAhead (line ++ cr :: lf :: rest)

section Lines

variable [Target] {m : Mode} {line : List UInt8}

theorem Mode.replies_iff :
    m.Replies line ↔ ∃ r m', react m line = .take (some (.response r)) m' := by
  constructor
  · rintro (⟨hflag, rfl⟩ | ⟨hlen, kind, r, hstate, hreply⟩)
    · exact ⟨_, _, react_ready_of_flag hflag⟩
    · exact ⟨_, _, react_of_isReply hreply hlen hstate⟩
  · rintro ⟨r, m', h⟩
    have hs := react_spec m line
    rw [h] at hs
    generalize ho : some (Output.response r) = o at hs
    cases hs with
    | ready hflag hline => exact Or.inl ⟨hflag, hline⟩
    | event | rejected => cases ho
    | reply kind hlen hstate _ hmatch =>
      right
      by_cases hreply : ∃ r, IsReply kind line r
      · obtain ⟨r', hr'⟩ := hreply
        exact ⟨hlen, kind, r', hstate, hr'⟩
      · rw [replyOutput_eq_none hmatch hreply] at ho
        cases ho

/-- A driver that waits for nothing gets no reply. -/
theorem not_replyAhead_idle {rx : List UInt8} : ¬ Mode.idle.ReplyAhead rx := by
  intro h
  induction h with
  | reply _ h =>
    rcases h with ⟨hflag, -⟩ | ⟨-, kind, -, hstate, -⟩
    · cases hflag
    · cases hstate
  | passes _ _ _ ih | malformed _ _ _ ih => exact ih

theorem replyAhead_iff {rx : List UInt8} : m.ReplyAhead rx ↔
    driverMachine.Ahead (fun _ => True) (fun o => ∃ r, o = .response r) m rx := by
  constructor
  · intro h
    induction h with
    | reply hl h =>
      obtain ⟨r, m', hr⟩ := Mode.replies_iff.mp h
      exact .here hl hr ⟨r, rfl⟩
    | passes hl h _ ih =>
      rcases Mode.react_of_passes h with hr | ⟨e, hr⟩
      · exact .skip hl hr ih
      · exact .take hl hr trivial ih
    | malformed hl h _ ih => exact .take hl (react_of_malformed h) trivial ih
  · intro h
    induction h with
    | here hl hr ho =>
      obtain ⟨r, rfl⟩ := ho
      exact .reply hl (Mode.replies_iff.mpr ⟨r, _, hr⟩)
    | skip hl hr _ ih => exact .passes hl (Mode.passes_of_skip hr) ih
    | take hl hr _ _ ih =>
      rcases react_take_inv hr with ⟨-, rfl, -⟩ | ⟨h, -, rfl⟩ | ⟨h, -, rfl⟩
      · exact absurd ih not_replyAhead_idle
      · exact .malformed hl h ih
      · exact .passes hl h ih

end Lines

section Responds

variable [Target] {d : Driver}

/-- With nothing to send, polling again is stepping again. -/
theorem Driver.responds_iff_reaches (hd : d.Sent) : d.Responds ↔
    driverMachine.Reaches (fun _ => True) (fun o => ∃ r, o = .response r) d.mode d.rx.data := by
  constructor
  · intro h
    induction h with
    | now hp =>
      obtain ⟨o, ho, hn⟩ := poll_next hd hp
      obtain rfl : some (Output.response _) = o := pollOf_injective ho
      exact .now hn ⟨_, rfl⟩
    | later hp _ ih =>
      obtain ⟨o, -, hn⟩ := poll_next hd hp
      exact .later hn trivial (ih (sent_of_poll hp))
  · intro h
    generalize hm : d.mode = m at h
    generalize hb : d.rx.data = buf at h
    induction h generalizing d with
    | now hn ho =>
      subst hm hb
      obtain ⟨r, rfl⟩ := ho
      obtain ⟨d', hp, -⟩ := poll_of_next hd hn
      exact .now hp
    | later hn _ _ ih =>
      subst hm hb
      obtain ⟨d', hp, hm', hb', -⟩ := poll_of_next hd hn
      exact .later hp (ih (sent_of_poll hp) hm' hb')

/-- Polling returns a response exactly when the reply is ahead. -/
theorem Driver.responds_iff (hd : d.Sent) : d.Responds ↔ d.mode.ReplyAhead d.rx.data := by
  rw [responds_iff_reaches hd, LineMachine.reaches_iff, replyAhead_iff]

end Responds

/-! ### The last read -/

namespace Std

/-- The command is accepted, and `pump_until` comes to a read with the driver `d` that delivers
`bytes` and behind which the time is up. -/
def Radio.TimesOutAt [Target] {α : Type} (radio : Radio) (cmd : Command) (timeout : Nat)
    (want : Response → Option (Except Error α)) (d : Driver) (bytes : List UInt8) : Prop :=
  ∃ d₀ start clock events port, radio.driver.submit cmd = .ok (.ok (), d₀) ∧
    radio.port.clock = start :: clock ∧
    TurnAt (turn (start + timeout)) want d₀ { radio.port with clock } events d port ∧
    (∃ read reads, port.reads = read :: reads ∧ delivered read = some bytes) ∧
    (∃ now clock, port.clock = now :: clock ∧ start + timeout ≤ now) ∧
    d.rx.len + bytes.length ≤ rxBuf

theorem Radio.command_of_pump [Target] {α : Type} {radio : Radio} {cmd : Command} {timeout : Nat}
    {want : Response → Option (Except Error α)} {d : Driver} {start : Nat} {clock : List Nat}
    {p : Pumped ErrorKind (Except ErrorKind Chunk) Error α}
    (hsubmit : radio.driver.submit cmd = .ok (.ok (), d))
    (hclock : radio.port.clock = start :: clock)
    (h : pump (turn (start + timeout)) .io want d { radio.port with clock } = .ok p) :
    radio.command cmd timeout want =
      .ok (p.result, ⟨p.driver, p.port, radio.events ++ p.events⟩) := by
  rw [command_eq, submitThenPump_accepted hsubmit (deadlineAfter_of_clock hclock timeout), h]
  rfl

/-- **Timeout only when no reply was read.** A command that returns `Error::Timeout` leaves a driver
from which no response can be polled, exactly when no reply is ahead in `rx` with the bytes of the
last read. -/
theorem timeout_iff [Target] {α : Type} (radio : Radio) (cmd : Command) (timeout : Nat)
    (want : Response → Option (Except Error α)) :
    (∀ radio', radio.command cmd timeout want = .ok (.error .timeout, radio') →
        ¬ radio'.driver.Responds) ↔
      ∀ d bytes, radio.TimesOutAt cmd timeout want d bytes →
        ¬ d.mode.ReplyAhead (d.rx.data ++ bytes) := by
  constructor
  · rintro h d bytes ⟨d₀, start, clock, events, port, hsubmit, hstart, hat, ⟨read, reads, hreads,
      hbytes⟩, ⟨now, clock', hclock, hnow⟩, hfit⟩ hahead
    obtain ⟨d', hturn, hmode, hsame, hrx⟩ := turn_of_delivered hreads hbytes hclock hfit
    rw [if_pos hnow] at hturn
    have hcommand := Radio.command_of_pump hsubmit hstart (pump_of_turnAt hat hturn)
    refine h _ hcommand ((Driver.responds_iff (hsame.sent hat.sent)).mpr ?_)
    rwa [hmode, hrx]
  · intro h radio' hcommand hresponds
    obtain ⟨⟨result, events, d', port'⟩, hcall, hresult, rfl⟩ := Radio.command_inv hcommand
    rcases submitThenPump_inv hcall with ⟨e, d₀, -, hrefused⟩ |
      ⟨d₀, deadline, port₀, hsubmit, hdeadline, hp⟩
    · cases hresult.trans (congrArg Pumped.result hrefused)
    obtain ⟨start, clock, hstart, rfl, rfl⟩ := deadlineAfter_eq_ok.mp hdeadline
    obtain ⟨events₁, d₁, port₁, r, hat, hloop, -, hends⟩ := exists_last_loop hp
    rcases hends with ⟨out, hstop, -, hdriver⟩ | ⟨e, -, hfailed, -⟩ | ⟨hstop, e, he, hturn⟩
    · -- the reply has been taken, whatever was made of it
      obtain ⟨hsent, hmode, -⟩ := (pollLoop_end hloop).2.1 out hstop
      obtain rfl : d' = r.driver := hdriver
      rw [Driver.responds_iff hsent, hmode] at hresponds
      exact not_replyAhead_idle hresponds
    · cases hresult.trans hfailed
    · obtain rfl : Error.timeout = e := Except.error.inj (hresult.trans he)
      obtain ⟨stop, events₂, d₂, writes⟩ := r
      obtain rfl : stop = .idle := hstop
      have hsent : d₂.Sent := (pollLoop_end hloop).1 rfl
      cases turn_spec hturn with
      | @delivered read reads bytes now clock' _ _ hreads hbytes hclock hfit hr hmode hsame hrx =>
        have hnow : start + timeout ≤ now := by
          by_contra hlt
          rw [if_neg hlt] at hr
          cases hr
        rw [Driver.responds_iff (hsame.sent hsent), hmode, hrx] at hresponds
        exact h d₂ bytes ⟨d₀, start, clock, _, _, hsubmit, hstart,
          ⟨_, _, _, _, _, hat, hloop, rfl, rfl⟩, ⟨read, reads, hreads, hbytes⟩,
          ⟨now, clock', hclock, hnow⟩, hfit⟩ hresponds

section

attribute [local instance] Target.host

/-- A ping whose reply comes with the last read times out, and the next poll returns the reply. -/
theorem timeout_hides_reply : ¬ ∀ radio radio' : Radio,
    radio.ping = .ok (.error .timeout, radio') → ¬ radio'.driver.Responds := by
  intro h
  have hping : Radio.ping
      ⟨.new, ⟨[.ok ()], [.ok ⟨utf8 "+OK\r\n", by decide⟩], [0, defaultTimeout]⟩, []⟩ =
        .ok (.error .timeout, ⟨.awaitingAck (utf8 "+OK\r\n") (by decide), ⟨[], [], []⟩, []⟩) := by
    decide +kernel
  have hcr : cr ∉ utf8 "+OK" := by decide
  have hreply : (Driver.awaitingAck (utf8 "+OK\r\n") (by decide)).mode.Replies (utf8 "+OK") :=
    Or.inr ⟨by decide, .ack, .ok, rfl, .ok⟩
  have hahead : (Driver.awaitingAck (utf8 "+OK\r\n") (by decide)).mode.ReplyAhead
      (utf8 "+OK" ++ cr :: lf :: []) := .reply hcr hreply
  exact h _ _ hping ((Driver.responds_iff (Nat.le_refl _)).mpr hahead)

end

end Std

end Rylr998
