import Rylr998.Core.Equiv.Lines
import Rylr998.Host.Pump

/-!
# What becomes of a command in the loop

After the bytes of a command are written, the loop of a host crate looks at line after line and
reads when it has looked at all of them. `ReplyReached` says, line by line, that it comes to a line
that ends the command before it gives up, and `pump_slot` that the command slot is free on return
exactly then.
-/

namespace Rylr998

open Framing

/-! ### Lines -/

namespace Mode

variable [Target] (m : Mode) (line : List UInt8)

/-- The line ends the command in flight: the `+READY` of a factory reset, or the awaited reply. -/
def Settles : Prop :=
  m.awaitingReadyAsOk = true ∧ line = utf8 "+READY" ∨
    line.length ≤ lineBufLength ∧ isEventLine line = false ∧
      ¬ (m.awaitingReadyAsOk = true ∧ startsWith line (utf8 "+RESET") = true) ∧
      ∃ kind, m.state = .awaiting kind ∧ Driver.responseMatches kind line = true

/-- The line is taken off and the next one is looked at: a `+RESET` of a factory reset, or a
well-formed event. -/
def Passes : Prop :=
  line.length ≤ lineBufLength ∧
    (m.awaitingReadyAsOk = true ∧ startsWith line (utf8 "+RESET") = true ∨
      isEventLine line = true ∧ ¬ (m.awaitingReadyAsOk = true ∧ line = utf8 "+READY") ∧
        ∃ e, (parseEvent line).run = .ok (.ok e))

end Mode

/-- A malformed event: the line is taken off and the next one waits for the next read. -/
def Malformed [Target] (line : List UInt8) : Prop :=
  line.length ≤ lineBufLength ∧ isEventLine line = true ∧
    ∃ e, (parseEvent line).run = .ok (.error e)

theorem replyOutput_ne_event (line : List UInt8) (e : Event) :
    replyOutput line ≠ some (.event e) := by
  unfold replyOutput
  cases parseResponse line <;> simp

section Lines

variable [Target] {m : Mode} {line : List UInt8}

/-- Whether a line settles the command or is malformed, it yields no event. -/
theorem react_of_settles (h : m.Settles line) :
    ∃ o, react m line = .take o .idle ∧ ∀ e, o ≠ some (.event e) := by
  rcases h with ⟨hflag, rfl⟩ | ⟨hlen, hevent, hreset, hmatch⟩
  · exact ⟨_, react_ready_of_flag hflag, by simp⟩
  · exact ⟨_, react_of_matches hlen (by simpa using hreset) (by simp [hevent])
      (Mode.matches_iff.mpr hmatch), replyOutput_ne_event line⟩

theorem react_of_malformed (h : Malformed line) : react m line = .take none m := by
  obtain ⟨hlen, hevent, e, hparse⟩ := h
  have hready : line ≠ utf8 "+READY" := by
    rintro rfl
    cases hparse
  rw [react_of_event hlen (by simp [startsWith_reset_of_isEventLine hevent]) hevent,
    if_neg (by simp [hready]), reactEvent, hparse]

/-- A line that is taken settles the command, is a malformed event or is an event. -/
theorem react_take_inv {m' : Mode} {o : Option Output} (h : react m line = .take o m') :
    m.Settles line ∧ m' = .idle ∧ (∀ e, o ≠ some (.event e)) ∨
      Malformed line ∧ o = none ∧ m' = m ∨
      m.Passes line ∧ (∃ e, o = some (.event e)) ∧ m' = m := by
  have hs := react_spec m line
  rw [h] at hs
  cases hs with
  | ready hflag hline => exact Or.inl ⟨Or.inl ⟨hflag, hline⟩, rfl, by simp⟩
  | event e hlen hevent hready hparse =>
    exact Or.inr (Or.inr ⟨⟨hlen, Or.inr ⟨hevent, hready, e, hparse⟩⟩, ⟨e, rfl⟩, rfl⟩)
  | rejected e hlen hevent hparse => exact Or.inr (Or.inl ⟨⟨hlen, hevent, e, hparse⟩, rfl, rfl⟩)
  | reply kind hlen hstate hevent hmatch =>
    have hreset : ¬ (m.awaitingReadyAsOk = true ∧ startsWith line (utf8 "+RESET") = true) := by
      intro hr
      cases (react_of_reset hlen (by simpa using hr)).symm.trans h
    exact Or.inl ⟨Or.inr ⟨hlen, hevent, hreset, kind, hstate, hmatch⟩, rfl,
      replyOutput_ne_event line⟩

theorem Mode.passes_of_skip (h : react m line = .skip) : m.Passes line := by
  have hs := react_spec m line
  rw [h] at hs
  cases hs with
  | reset hlen hflag hreset => exact ⟨hlen, Or.inl ⟨hflag, hreset⟩⟩

theorem Mode.react_of_passes (h : m.Passes line) :
    react m line = .skip ∨ ∃ e, react m line = .take (some (.event e)) m := by
  obtain ⟨hlen, hreset | ⟨hevent, hready, e, hparse⟩⟩ := h
  · exact Or.inl (react_of_reset hlen (by simpa using hreset))
  · refine Or.inr ⟨e, ?_⟩
    rw [react_of_event hlen (by simp [startsWith_reset_of_isEventLine hevent]) hevent,
      if_neg (by simpa using hready), reactEvent, hparse]

section InFlight

variable (hne : m.state ≠ .idle)

include hne

theorem Mode.settles_iff : m.Settles line ↔ ∃ o, react m line = .take o .idle := by
  constructor
  · intro h
    obtain ⟨o, hreact, -⟩ := react_of_settles h
    exact ⟨o, hreact⟩
  · rintro ⟨o, ho⟩
    rcases react_take_inv ho with ⟨h, -⟩ | ⟨-, -, rfl⟩ | ⟨-, -, rfl⟩
    · exact h
    · exact absurd rfl hne
    · exact absurd rfl hne

theorem Mode.passes_iff :
    m.Passes line ↔ react m line = .skip ∨ ∃ e, react m line = .take (some (.event e)) m := by
  refine ⟨react_of_passes, ?_⟩
  rintro (hskip | ⟨e, he⟩)
  · exact passes_of_skip hskip
  · rcases react_take_inv he with ⟨-, hm, -⟩ | ⟨-, ho, -⟩ | ⟨h, -⟩
    · exact absurd (congrArg Mode.state hm) hne
    · cases ho
    · exact h

theorem malformed_iff : Malformed line ↔ react m line = .take none m := by
  refine ⟨react_of_malformed, ?_⟩
  intro h
  rcases react_take_inv h with ⟨-, hm, -⟩ | ⟨h, -⟩ | ⟨-, ⟨e, ho⟩, -⟩
  · exact absurd (congrArg Mode.state hm) hne
  · exact h
  · cases ho

end InFlight

end Lines

/-! ### The reply is reached -/

/-- The loop comes to a line that ends the command in flight. `arrive rx s` is `rx` after the next
read and what is left of the script `s`, or `none` when the call gives up. -/
inductive ReplyReached [Target] {σ : Type} (arrive : List UInt8 → σ → Option (List UInt8 × σ))
    (m : Mode) : List UInt8 → σ → Prop
  | settles {line rest : List UInt8} {s : σ} : cr ∉ line → m.Settles line →
    ReplyReached arrive m (line ++ cr :: lf :: rest) s
  | passes {line rest : List UInt8} {s : σ} : cr ∉ line → m.Passes line →
    ReplyReached arrive m rest s → ReplyReached arrive m (line ++ cr :: lf :: rest) s
  | malformed {line rest rx : List UInt8} {s s' : σ} : cr ∉ line → Malformed line →
    arrive rest s = some (rx, s') → ReplyReached arrive m rx s' →
    ReplyReached arrive m (line ++ cr :: lf :: rest) s
  | incomplete {part rx : List UInt8} {s s' : σ} : crlf.splitLine part = none →
    arrive part s = some (rx, s') → ReplyReached arrive m rx s' → ReplyReached arrive m part s

section Reached

variable [Target] {σ : Type} {arrive : List UInt8 → σ → Option (List UInt8 × σ)} {m : Mode}
  {line rest : List UInt8} {s : σ}

/-- The reply is reached after the next read. -/
def ReachedLater (arrive : List UInt8 → σ → Option (List UInt8 × σ)) (m : Mode) (rx : List UInt8)
    (s : σ) : Prop :=
  ∃ rx' s', arrive rx s = some (rx', s') ∧ ReplyReached arrive m rx' s'

theorem reached_line_iff (hl : cr ∉ line) :
    ReplyReached arrive m (line ++ cr :: lf :: rest) s ↔
      m.Settles line ∨ (m.Passes line ∧ ReplyReached arrive m rest s) ∨
        (Malformed line ∧ ReachedLater arrive m rest s) := by
  constructor
  · intro h
    generalize hrx : line ++ cr :: lf :: rest = rx at h
    cases h with
    | settles hl' h =>
      obtain ⟨rfl, rfl⟩ := crlf.line_unique hl hl' hrx
      exact Or.inl h
    | passes hl' h hr =>
      obtain ⟨rfl, rfl⟩ := crlf.line_unique hl hl' hrx
      exact Or.inr (Or.inl ⟨h, hr⟩)
    | malformed hl' h ha hr =>
      obtain ⟨rfl, rfl⟩ := crlf.line_unique hl hl' hrx
      exact Or.inr (Or.inr ⟨h, _, _, ha, hr⟩)
    | incomplete hpart =>
      have hsplit : crlf.splitLine (line ++ cr :: lf :: rest) = some (line, rest) :=
        crlf.splitLine_line hl rest
      rw [← hrx, hsplit] at hpart
      cases hpart
  · rintro (h | ⟨h, hr⟩ | ⟨h, _, _, ha, hr⟩)
    · exact .settles hl h
    · exact .passes hl h hr
    · exact .malformed hl h ha hr

theorem reached_part_iff (h : crlf.splitLine rest = none) :
    ReplyReached arrive m rest s ↔ ReachedLater arrive m rest s := by
  constructor
  · intro hr
    cases hr with
    | settles hl | passes hl | malformed hl =>
      rw [show crlf.splitLine (_ ++ cr :: lf :: _) = _ from crlf.splitLine_line hl _] at h
      cases h
    | incomplete _ ha hr => exact ⟨_, _, ha, hr⟩
  · rintro ⟨_, _, ha, hr⟩
    exact .incomplete h ha hr

theorem reached_skips_iff (hne : m.state ≠ .idle) {ls : List (List UInt8)}
    (h : driverMachine.Skips m ls) :
    ReplyReached arrive m (crlf.unlines ls ++ rest) s ↔ ReplyReached arrive m rest s := by
  induction ls with
  | nil => simp
  | cons l ls ih =>
    obtain ⟨hl, hskip⟩ := h l List.mem_cons_self
    have hpass : m.Passes l := (Mode.passes_iff hne).mpr (Or.inl hskip)
    have hrest := ih fun x hx => h x (List.mem_cons_of_mem _ hx)
    have hsettles : ¬ m.Settles l := fun hs => by
      obtain ⟨o, ho⟩ := (Mode.settles_iff hne).mp hs
      cases hskip.symm.trans ho
    have hmalformed : ¬ Malformed l := fun hs => by
      cases hskip.symm.trans ((malformed_iff hne).mp hs)
    rw [show crlf.unlines (l :: ls) ++ rest = l ++ cr :: lf :: (crlf.unlines ls ++ rest) by simp,
      reached_line_iff hl]
    simp [hpass, hsettles, hmalformed, hrest]

/-- A line that is left in place keeps the reply from being reached. -/
theorem not_reached_of_keep (hne : m.state ≠ .idle) (hl : cr ∉ line) (h : react m line = .keep) :
    ¬ ReplyReached arrive m (line ++ cr :: lf :: rest) s := by
  rw [reached_line_iff hl, Mode.settles_iff hne, Mode.passes_iff hne, malformed_iff hne, h]
  simp

/-- What a step of the line machine does to the command in flight. -/
theorem reached_of_next (hext : ∀ rx s rx' s', arrive rx s = some (rx', s') → rx <+: rx')
    (hne : m.state ≠ .idle) {m' : Mode} {o : Option Output} {buf buf' : List UInt8}
    (h : driverMachine.next m buf = .ok (o, m', buf')) :
    (m'.state = .idle ∧ ∀ s, ReplyReached arrive m buf s) ∨
      (m' = m ∧ (∃ e, o = some (.event e)) ∧
        ∀ s, ReplyReached arrive m buf s ↔ ReplyReached arrive m buf' s) ∨
      (m' = m ∧ o = none ∧ ∀ s, ReplyReached arrive m buf s ↔ ReachedLater arrive m buf' s) := by
  obtain ⟨skipped, hskip, ⟨rfl, rfl, rfl, hstuck⟩ | ⟨l, hl, hr, rfl⟩⟩ := LineMachine.next_inv h
  · refine Or.inr (Or.inr ⟨rfl, rfl, fun s => (reached_skips_iff hne hskip).trans ?_⟩)
    rcases hstuck with hpart | ⟨l, r, hlr, hkeep⟩
    · exact reached_part_iff hpart
    · -- the line in place stays there, whatever arrives behind it
      obtain ⟨hl, rfl⟩ := crlf.splitLine_eq_some_iff.mp hlr
      apply iff_of_false (not_reached_of_keep hne hl hkeep)
      rintro ⟨rx', s', ha, hreached⟩
      obtain ⟨more, rfl⟩ := hext _ _ _ _ ha
      rw [List.append_assoc] at hreached
      exact not_reached_of_keep hne hl hkeep hreached
  -- a line is taken: the mode stays, or the command in flight is ended
  · rcases react_take_mode hr with rfl | rfl
    · have hline (s : σ) : ReplyReached arrive m' (crlf.unlines skipped ++
          (l ++ cr :: lf :: buf')) s ↔ _ :=
        (reached_skips_iff hne hskip).trans (reached_line_iff hl)
      have hsettles : ¬ m'.Settles l := fun hs => by
        obtain ⟨o', ho'⟩ := (Mode.settles_iff hne).mp hs
        cases hr.symm.trans ho'
        exact hne rfl
      have hr : react m' l = .take o m' := hr
      simp only [hsettles, Mode.passes_iff hne, malformed_iff hne, hr] at hline
      right
      rcases o with _ | r | e
      · exact Or.inr ⟨rfl, rfl, fun s => (hline s).trans (by simp)⟩
      · exact absurd (congrArg Mode.state (inFlight_of_react hr (Or.inr ⟨r, rfl⟩)).1) hne
      · exact Or.inl ⟨rfl, ⟨e, rfl⟩, fun s => (hline s).trans (by simp)⟩
    · exact Or.inl ⟨rfl, fun s => (reached_skips_iff hne hskip).mpr
        (.settles hl ((Mode.settles_iff hne).mpr ⟨o, hr⟩))⟩

end Reached

/-! ### The loop over `Driver::poll` -/

/-- Nothing is left to send. -/
def Driver.Sent (d : Driver) : Prop := d.tx.len ≤ d.txInFlight

theorem Driver.SameTx.sent {d d' : Driver} (h : Driver.SameTx d d') (hd : d.Sent) : d'.Sent :=
  h.tx_le hd

/-- After a poll everything is sent or handed out. -/
theorem Driver.sent_of_poll [Target] {d d' : Driver} {p : Poll} (h : d.poll = .ok (p, d')) :
    d'.Sent := by
  rcases poll_inv h with ⟨-, -, rfl⟩ | ⟨htx, o, -, -, hsame⟩
  · exact Nat.le_refl _
  · exact hsame.sent htx

/-- A poll that hands out no bytes has found nothing to send. -/
theorem Driver.sent_of_poll_ne [Target] {d d' : Driver} {p : Poll} (h : d.poll = .ok (p, d'))
    (hp : ∀ bytes, p ≠ .needTx bytes) : d.Sent := by
  rcases poll_inv h with ⟨-, rfl, -⟩ | ⟨htx, -⟩
  · exact absurd rfl (hp _)
  · exact htx

/-- Where a poll leads to when there is nothing to send. -/
theorem Driver.poll_next [Target] {d d' : Driver} {p : Poll} (hd : d.Sent)
    (h : d.poll = .ok (p, d')) :
    ∃ o, p = pollOf o ∧ driverMachine.next d.mode d.rx.data = .ok (o, d'.mode, d'.rx.data) := by
  rcases poll_inv h with ⟨htx, -⟩ | ⟨-, o, ho, hnext, -⟩
  · exact absurd htx (Nat.not_lt.mpr hd)
  · exact ⟨o, ho, hnext⟩

/-- With nothing to send, a poll returns an event exactly when `rx` begins with one. -/
theorem Driver.poll_event_iff [Target] {d : Driver} (hd : d.Sent) :
    (∃ e d', d.poll = .ok (.event e, d')) ↔ EventFirst d.mode d.rx.data := by
  rw [eventFirst_iff]
  constructor
  · rintro ⟨e, d', hpoll⟩
    obtain ⟨o, ho, hnext⟩ := poll_next hd hpoll
    have hout : some (Output.event e) = o := pollOf_injective ho
    subst hout
    exact ⟨e, d'.mode, d'.rx.data, hnext⟩
  · rintro ⟨e, m', rest, hnext⟩
    obtain ⟨d', hpoll, -⟩ := poll_of_next hd hnext
    exact ⟨e, d', hpoll⟩

section Loop

variable [Target] {ω α : Type} {want : Response → Option α} {d d' : Driver}
  {writes : List (Except ω Unit)}

theorem pollLoop_of_error {f : Fault} (h : d.poll = .error f) :
    pollLoop want d writes = .error (.panicked f) := by
  rw [pollLoop]
  split <;> simp_all

theorem pollLoop_of_idle (h : d.poll = .ok (.idle, d')) :
    pollLoop want d writes = .ok ⟨.idle, [], d', writes⟩ := by
  rw [pollLoop]
  split <;> simp_all

theorem pollLoop_of_event {e : Event} (h : d.poll = .ok (.event e, d')) :
    pollLoop want d writes = (pollLoop want d' writes).map (Looped.cons e) := by
  rw [pollLoop]
  split <;> simp_all

theorem pollLoop_of_response {r : Response} (h : d.poll = .ok (.response r, d')) :
    pollLoop want d writes =
      match want r with
      | some out => .ok ⟨.wanted out, [], d', writes⟩
      | none => pollLoop want d' writes := by
  rw [pollLoop]
  split
  case h_4 hp => rw [h] at hp; cases hp; rfl
  all_goals simp_all

theorem pollLoop_of_blocked {bytes : List UInt8} (h : d.poll = .ok (.needTx bytes, d')) :
    pollLoop want d ([] : List (Except ω Unit)) = .error .blocked := by
  rw [pollLoop]
  split <;> simp_all

theorem pollLoop_of_unwritten {bytes : List UInt8} {e : ω}
    (h : d.poll = .ok (.needTx bytes, d')) :
    pollLoop want d (.error e :: writes) = .ok ⟨.failed e, [], d', writes⟩ := by
  rw [pollLoop]
  split <;> simp_all

theorem pollLoop_of_written {bytes : List UInt8} (h : d.poll = .ok (.needTx bytes, d')) :
    pollLoop want d (.ok () :: writes) =
      match d'.ackTx bytes.length with
      | .error f => .error (.panicked f)
      | .ok d'' => pollLoop want d'' writes := by
  rw [pollLoop]
  split
  case h_5 hp =>
    rw [h] at hp
    cases hp
    dsimp only
    split
    · next ha => rw [ha]
    · next ha => rw [ha]
  all_goals simp_all

/-- The driver after all of its bytes are written and acknowledged. -/
def Driver.flushed (d : Driver) : Driver :=
  (dropSent { d with txInFlight := d.tx.len } (d.tx.len - d.txInFlight)).advance

omit [Target] in
theorem Driver.flushed_sent (d : Driver) : d.flushed.Sent ∧ d.flushed.rx = d.rx := by
  obtain ⟨htx, hflight, hrx, -⟩ :=
    advance_same (dropSent { d with txInFlight := d.tx.len } (d.tx.len - d.txInFlight))
  refine ⟨?_, hrx⟩
  rw [Sent, flushed, htx, hflight]
  simp only [dropSent, HVec.len, HVec.data_dropFront, List.length_drop]
  exact Nat.le_refl _

omit [Target] in
theorem Driver.ackTx_handout (d : Driver) :
    ackTx { d with txInFlight := d.tx.len } (d.tx.data.drop d.txInFlight).length =
      .ok d.flushed := by
  rw [ackTx_eq _ _ (Nat.le_refl _), List.length_drop]
  rfl

theorem pollLoop_of_needTx (h : d.txInFlight < d.tx.len) :
    pollLoop want d writes =
      match writes with
      | [] => .error .blocked
      | .error e :: writes => .ok ⟨.failed e, [], { d with txInFlight := d.tx.len }, writes⟩
      | .ok () :: writes => pollLoop want d.flushed writes := by
  have hp := Driver.poll_needTx h
  rcases writes with _ | ⟨e | ⟨⟩, writes⟩
  · exact pollLoop_of_blocked hp
  · exact pollLoop_of_unwritten hp
  · rw [pollLoop_of_written hp, d.ackTx_handout]

/-- The induction over the loop of a driver that has nothing left to send. -/
theorem pollLoop_induction {P : Driver → Looped ω α → Prop}
    (stop : ∀ {d d'}, driverMachine.next d.mode d.rx.data = .ok (none, d'.mode, d'.rx.data) →
      Driver.SameTx d d' → P d ⟨.idle, [], d', writes⟩)
    (event : ∀ {d d' e r}, driverMachine.next d.mode d.rx.data =
      .ok (some (.event e), d'.mode, d'.rx.data) → Driver.SameTx d d' → P d' r → P d (r.cons e))
    (wanted : ∀ {d d' r out}, driverMachine.next d.mode d.rx.data =
      .ok (some (.response r), d'.mode, d'.rx.data) → Driver.SameTx d d' → want r = some out →
      P d ⟨.wanted out, [], d', writes⟩)
    (unwanted : ∀ {d d' r res}, driverMachine.next d.mode d.rx.data =
      .ok (some (.response r), d'.mode, d'.rx.data) → Driver.SameTx d d' → want r = none →
      P d' res → P d res) {d : Driver} (hd : d.Sent) {r : Looped ω α}
    (h : pollLoop want d writes = .ok r) : P d r := by
  induction hlen : d.rx.len using Nat.strong_induction_on generalizing d r with
  | _ n ih =>
  subst hlen
  cases hp : d.poll with
  | error f => rw [pollLoop_of_error hp] at h; cases h
  | ok q =>
    obtain ⟨p, d'⟩ := q
    obtain ⟨htx, -, -⟩ | ⟨-, o, rfl, hn, hsame⟩ := Driver.poll_inv hp
    · exact absurd htx (Nat.not_lt.mpr hd)
    rcases o with _ | r' | e
    · rw [pollLoop_of_idle hp] at h
      cases h
      exact stop hn hsame
    -- `poll` has taken a line off, so the loop has fewer bytes to look at
    all_goals
      have hlt : d'.rx.len < d.rx.len := by
        have := (LineMachine.next_length hn).2 rfl
        unfold HVec.len
        omega
    · rw [pollLoop_of_response hp] at h
      cases hw : want r' with
      | none =>
        rw [hw] at h
        exact unwanted hn hsame hw (ih _ hlt (hsame.sent hd) h rfl)
      | some out =>
        rw [hw] at h
        cases h
        exact wanted hn hsame hw
    · rw [pollLoop_of_event hp] at h
      obtain ⟨res, hr, rfl⟩ := Except.map_eq_ok.mp h
      exact event hn hsame (ih _ hlt (hsame.sent hd) hr rfl)

theorem pollLoop_sameTx (hd : d.Sent) {r : Looped ω α} (h : pollLoop want d writes = .ok r) :
    Driver.SameTx d r.driver ∧ r.writes = writes := by
  refine pollLoop_induction (P := fun d r => Driver.SameTx d r.driver ∧ r.writes = writes)
    ?_ ?_ ?_ ?_ hd h
  · exact fun _ hsame => ⟨hsame, rfl⟩
  · exact fun _ hsame ih => ⟨hsame.trans ih.1, ih.2⟩
  · exact fun _ hsame _ => ⟨hsame, rfl⟩
  · exact fun _ hsame _ ih => ⟨hsame.trans ih.1, ih.2⟩

/-- What the loop does to the command slot: a free one stays free; a command in flight is ended, or
the loop stops with it in flight. -/
theorem pollLoop_slot {σ : Type} {arrive : List UInt8 → σ → Option (List UInt8 × σ)}
    (hext : ∀ rx s rx' s', arrive rx s = some (rx', s') → rx <+: rx') (hd : d.Sent)
    {r : Looped ω α} (h : pollLoop want d writes = .ok r) :
    (d.state = .idle → r.driver.state = .idle) ∧ (d.state ≠ .idle →
      (r.driver.state = .idle ∧ ∀ s, ReplyReached arrive d.mode d.rx.data s) ∨
        (r.stop = .idle ∧ r.driver.mode = d.mode ∧ ∀ s, ReplyReached arrive d.mode d.rx.data s ↔
          ReachedLater arrive d.mode r.driver.rx.data s)) := by
  -- no line makes an idle driver busy
  have hfree {d d' : Driver} {o : Option Output} (hidle : d.state = .idle)
      (hn : driverMachine.next d.mode d.rx.data = .ok (o, d'.mode, d'.rx.data)) :
      d'.state = .idle := by
    rcases next_mode hn with hm | hm
    · exact (congrArg Mode.state hm).trans hidle
    · exact congrArg Mode.state hm
  refine pollLoop_induction (P := fun d r => (d.state = .idle → r.driver.state = .idle) ∧
    (d.state ≠ .idle → (r.driver.state = .idle ∧ ∀ s, ReplyReached arrive d.mode d.rx.data s) ∨
      (r.stop = .idle ∧ r.driver.mode = d.mode ∧ ∀ s, ReplyReached arrive d.mode d.rx.data s ↔
        ReachedLater arrive d.mode r.driver.rx.data s))) ?_ ?_ ?_ ?_ hd h
  · intro d d' hn _
    refine ⟨fun hidle => hfree hidle hn, fun hne => ?_⟩
    rcases reached_of_next hext hne hn with h | ⟨-, ⟨e, he⟩, -⟩ | ⟨hm, -, hlater⟩
    · exact Or.inl h
    · cases he
    · exact Or.inr ⟨rfl, hm, hlater⟩
  · intro d d' e r hn _ ih
    refine ⟨fun hidle => ih.1 (hfree hidle hn), fun hne => ?_⟩
    rcases reached_of_next hext hne hn with ⟨hidle, hreached⟩ | ⟨hm, -, hiff⟩ | ⟨-, ho, -⟩
    · exact Or.inl ⟨ih.1 hidle, hreached⟩
    · have hstate : d'.state = d.state := congrArg Mode.state hm
      rcases ih.2 (hstate ▸ hne) with ⟨hidle, hreached⟩ | ⟨hstop, hm', hlater⟩
      · exact Or.inl ⟨hidle, fun s => (hiff s).mpr (hm ▸ hreached s)⟩
      · exact Or.inr ⟨hstop, hm'.trans hm, fun s => (hiff s).trans (hm ▸ hlater s)⟩
    · cases ho
  · intro d d' r out hn _ _
    refine ⟨fun hidle => hfree hidle hn, fun hne => ?_⟩
    rcases reached_of_next hext hne hn with h | ⟨-, ⟨e, he⟩, -⟩ | ⟨-, ho, -⟩
    · exact Or.inl h
    · cases he
    · cases ho
  · intro d d' r res hn _ _ ih
    refine ⟨fun hidle => ih.1 (hfree hidle hn), fun hne => ?_⟩
    rcases reached_of_next hext hne hn with ⟨hidle, hreached⟩ | ⟨-, ⟨e, he⟩, -⟩ | ⟨-, ho, -⟩
    · exact Or.inl ⟨ih.1 hidle, hreached⟩
    · cases he
    · cases ho

end Loop

/-! ### The loop around it -/

/-- What a turn does to a driver: it leaves in `rx` what `arrive` says, or gives up, and the command
slot and the sending side stay as they are. -/
structure Turn.Arrives {ω ρ ε : Type} (turn : Turn ω ρ ε)
    (arrive : List UInt8 → Port ω ρ → Option (List UInt8 × Port ω ρ)) : Prop where
  arrive_eq : ∀ {d d' port port' r}, turn.run d port = .ok (r, d', port') →
    arrive d.rx.data port = r.toOption.map fun _ => (d'.rx.data, port')
  same : ∀ {d d' port port' r}, turn.run d port = .ok (r, d', port') →
    d'.mode = d.mode ∧ Driver.SameTx d d'
  /-- What is read goes behind what is there. -/
  extends_rx : ∀ rx port rx' port', arrive rx port = some (rx', port') → rx <+: rx'

section Pump

variable [Target] {ω ρ ε α : Type} {turn : Turn ω ρ ε} {io : ω → ε}
  {want : Response → Option (Except ε α)} {d : Driver} {port : Port ω ρ}
  {arrive : List UInt8 → Port ω ρ → Option (List UInt8 × Port ω ρ)}

theorem pump_of_error {halt : Halt} (h : pollLoop want d port.writes = .error halt) :
    pump turn io want d port = .error halt := by
  rw [pump, h]

theorem pump_of_wanted {out : Except ε α} {events : List Event} {d' : Driver}
    {writes : List (Except ω Unit)}
    (h : pollLoop want d port.writes = .ok ⟨.wanted out, events, d', writes⟩) :
    pump turn io want d port = .ok ⟨out, events, d', { port with writes }⟩ := by
  rw [pump, h]

section Turn

variable {events : List Event} {d' : Driver} {writes : List (Except ω Unit)}
  (h : pollLoop want d port.writes = .ok ⟨.idle, events, d', writes⟩)

include h

theorem pump_of_halt {halt : Halt} (hturn : turn.run d' { port with writes } = .error halt) :
    pump turn io want d port = .error halt := by
  rw [pump, h]
  dsimp only
  split
  · next ht => cases hturn.symm.trans ht; rfl
  · next ht => cases hturn.symm.trans ht
  · next ht => cases hturn.symm.trans ht

theorem pump_of_giveUp {e : ε} {d'' : Driver} {port' : Port ω ρ}
    (hturn : turn.run d' { port with writes } = .ok (.error e, d'', port')) :
    pump turn io want d port = .ok ⟨.error e, events, d'', port'⟩ := by
  rw [pump, h]
  dsimp only
  split
  · next ht => cases hturn.symm.trans ht
  · next ht => cases hturn.symm.trans ht; rfl
  · next ht => cases hturn.symm.trans ht

theorem pump_of_turn {d'' : Driver} {port' : Port ω ρ}
    (hturn : turn.run d' { port with writes } = .ok (.ok (), d'', port')) :
    pump turn io want d port =
      (pump turn io want d'' port').map fun p => { p with events := events ++ p.events } := by
  rw [pump, h]
  dsimp only
  split
  · next ht => cases hturn.symm.trans ht
  · next ht => cases hturn.symm.trans ht
  · next ht => cases hturn.symm.trans ht; rfl

end Turn

/-- How a call returns: from the loop over `Driver::poll`, from the turn after it, or later. -/
theorem pump_inv {p : Pumped ω ρ ε α} (h : pump turn io want d port = .ok p) :
    ∃ r, pollLoop want d port.writes = .ok r ∧
      ((∃ out, r.stop = .wanted out ∧
          p = ⟨out, r.events, r.driver, { port with writes := r.writes }⟩) ∨
        (∃ e, r.stop = .failed e ∧
          p = ⟨.error (io e), r.events, r.driver, { port with writes := r.writes }⟩) ∨
        (r.stop = .idle ∧ ∃ e d' port',
          turn.run r.driver { port with writes := r.writes } = .ok (.error e, d', port') ∧
          p = ⟨.error e, r.events, d', port'⟩) ∨
        (r.stop = .idle ∧ ∃ d' port' p',
          turn.run r.driver { port with writes := r.writes } = .ok (.ok (), d', port') ∧
          pump turn io want d' port' = .ok p' ∧
          p = { p' with events := r.events ++ p'.events })) := by
  rw [pump] at h
  rcases hloop : pollLoop want d port.writes with halt | ⟨stop, events, d₁, writes⟩
  · rw [hloop] at h
    cases h
  rw [hloop] at h
  refine ⟨_, rfl, ?_⟩
  cases stop with
  | wanted out => cases h; exact Or.inl ⟨out, rfl, rfl⟩
  | failed e => cases h; exact Or.inr (Or.inl ⟨e, rfl, rfl⟩)
  | idle =>
    dsimp only at h
    split at h
    · cases h
    · next e d' port' hturn =>
      cases h
      exact Or.inr (Or.inr (Or.inl ⟨rfl, e, d', port', hturn, rfl⟩))
    · next d' port' hturn =>
      obtain ⟨p', hrec, rfl⟩ := Except.map_eq_ok.mp h
      exact Or.inr (Or.inr (Or.inr ⟨rfl, d', port', p', hturn, hrec, rfl⟩))

/-- After the bytes of a command are written, the slot is free on return exactly when the reply is
reached. -/
theorem pump_slot (harr : turn.Arrives arrive) (hd : d.Sent) {p : Pumped ω ρ ε α}
    (h : pump turn io want d port = .ok p) :
    (d.state = .idle → p.driver.state = .idle) ∧ (d.state ≠ .idle →
      (p.driver.state = .idle ↔ ReplyReached arrive d.mode d.rx.data port)) := by
  induction hlen : port.reads.length using Nat.strong_induction_on generalizing d port p with
  | _ n ih =>
  subst hlen
  obtain ⟨r, hloop, hcase⟩ := pump_inv h
  obtain ⟨hsame, hwrites⟩ := pollLoop_sameTx hd hloop
  obtain ⟨hfree, hslot⟩ := pollLoop_slot harr.extends_rx hd hloop
  rw [hwrites] at hcase
  -- the loop over `poll` itself ends the call
  have hreturn (hstop : r.stop ≠ .idle) :
      (d.state = .idle → r.driver.state = .idle) ∧ (d.state ≠ .idle →
        (r.driver.state = .idle ↔ ReplyReached arrive d.mode d.rx.data port)) := by
    refine ⟨hfree, fun hne => ?_⟩
    rcases hslot hne with ⟨hidle, hreached⟩ | ⟨hidle, -⟩
    · exact iff_of_true hidle (hreached port)
    · exact absurd hidle hstop
  rcases hcase with ⟨out, hstop, rfl⟩ | ⟨e, hstop, rfl⟩ | ⟨-, e, d', port', hturn, rfl⟩ |
    ⟨-, d', port', p', hturn, hrec, rfl⟩
  · exact hreturn (by rw [hstop]; nofun)
  · exact hreturn (by rw [hstop]; nofun)
  · -- the call gives up
    have hstate : d'.state = r.driver.state := congrArg Mode.state (harr.same hturn).1
    refine ⟨fun hidle => hstate.trans (hfree hidle), fun hne => ?_⟩
    rcases hslot hne with ⟨hidle, hreached⟩ | ⟨-, hm, hlater⟩
    · exact iff_of_true (hstate.trans hidle) (hreached port)
    · refine iff_of_false (fun hidle => hne ?_) fun hreached => ?_
      · exact (hstate.trans (congrArg Mode.state hm)).symm.trans hidle
      · obtain ⟨rx, port'', ha, -⟩ := (hlater port).mp hreached
        cases (harr.arrive_eq hturn).symm.trans ha
  · -- the call goes on after a read
    obtain ⟨hmode, hsame'⟩ := harr.same hturn
    have hstate : d'.state = r.driver.state := congrArg Mode.state hmode
    obtain ⟨hfree', hslot'⟩ :=
      ih _ (turn.reads_lt hturn) (hsame'.sent (hsame.sent hd)) hrec rfl
    refine ⟨fun hidle => hfree' (hstate.trans (hfree hidle)), fun hne => ?_⟩
    rcases hslot hne with ⟨hidle, hreached⟩ | ⟨-, hm, hlater⟩
    · exact iff_of_true (hfree' (hstate.trans hidle)) (hreached port)
    · have hstate' : d'.state = d.state := hstate.trans (congrArg Mode.state hm)
      rw [show _ ↔ _ from hslot' (hstate' ▸ hne), hlater, hmode.trans hm]
      have ha := harr.arrive_eq hturn
      constructor
      · exact fun hr => ⟨_, _, ha, hr⟩
      · rintro ⟨rx, port'', ha', hr⟩
        cases ha.symm.trans ha'
        exact hr

end Pump

end Rylr998
