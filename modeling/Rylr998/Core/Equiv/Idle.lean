import Rylr998.Core.Equiv.Grammar
import Rylr998.Core.Equiv.Vanish

/-!
# What `Poll.idle` leaves behind

`Poll.idle` is documented to mean that there is nothing left to do until more bytes arrive. `poll`
also returns it when it has just taken a line off that it cannot parse, without a look at the line
behind it. So another poll finds more exactly when such a line is swallowed in front of one that
yields something (`idle_is_idle_iff`).
-/

namespace Rylr998

open Framing

/-! ### Lines that speak and lines that are swallowed -/

section Lines

variable [Target]

/-- The line, when it is reached, yields an event or a response, or makes `poll` panic. -/
inductive Mode.Speaks (m : Mode) (line : List UInt8) : Prop
  | long : lineBufLength < line.length → m.Speaks line
  | overflow : LengthOverflows line → m.Speaks line
  | event (e : Event) : IsEvent line e → m.Speaks line
  | reply (kind : AwaitKind) (r : Response) : m.state = .awaiting kind → IsReply kind line r →
    m.Speaks line

/-- The line is taken off and yields nothing: it begins like an event or matches the awaited reply,
and is not well formed. The driver is in the mode `m'` afterwards. -/
inductive Mode.Swallows (m : Mode) (line : List UInt8) : Mode → Prop
  | event : line.length ≤ lineBufLength → isEventLine line = true → ¬ LengthOverflows line →
    (∀ e, ¬ IsEvent line e) → m.Swallows line m
  | reply (kind : AwaitKind) : line.length ≤ lineBufLength → m.state = .awaiting kind →
    isEventLine line = false → Driver.responseMatches kind line = true →
    ¬ (m.awaitingReadyAsOk = true ∧ startsWith line (utf8 "+RESET") = true) →
    (∀ r, ¬ IsReply kind line r) → m.Swallows line .idle

/-- Behind lines that are swallowed, if any, `rx` has a line that speaks. -/
inductive Mode.Hides : Mode → List UInt8 → Prop
  | speaks {m : Mode} {skipped : List (List UInt8)} {line rest : List UInt8} :
    driverMachine.Skips m skipped → cr ∉ line → m.Speaks line →
      Hides m (crlf.unlines skipped ++ (line ++ cr :: lf :: rest))
  | swallows {m m' : Mode} {skipped : List (List UInt8)} {line rest : List UInt8} :
    driverMachine.Skips m skipped → cr ∉ line → m.Swallows line m' → Hides m' rest →
      Hides m (crlf.unlines skipped ++ (line ++ cr :: lf :: rest))

variable {m m' : Mode} {line : List UInt8}

theorem isEventLine_of_lengthOverflows (h : LengthOverflows line) : isEventLine line = true := by
  obtain ⟨a, l, rest, ⟨rfl, -⟩, -⟩ := h
  rw [isEventLine, show utf8 "+RCV=" ++ (a ++ comma :: (l ++ comma :: rest)) =
    utf8 "+RCV" ++ ([61] ++ (a ++ comma :: (l ++ comma :: rest))) from rfl, startsWith_append]
  rfl

theorem react_of_lengthOverflows (h : LengthOverflows line) : ∃ f, react m line = .fault f := by
  by_cases hlong : lineBufLength < line.length
  · exact ⟨_, react_of_long hlong⟩
  have hlen : line.length ≤ lineBufLength := by omega
  have hevent := isEventLine_of_lengthOverflows h
  have hready : line ≠ utf8 "+READY" := by
    rintro rfl
    obtain ⟨a, l, rest, ⟨hline, -⟩, -⟩ := h
    exact append_ne_of_ne (by decide) hline.symm
  obtain ⟨p, hp⟩ : ∃ p, (parseEvent line).run = .error p :=
    parseEventIn_panics .checked (length_le_usizeMax hlen) h
  refine ⟨.parser p, ?_⟩
  rw [react_of_event hlen (by simp [startsWith_reset_of_isEventLine hevent]) hevent,
    if_neg (by simp [hready]), reactEvent, hp]

/-- A line speaks when the line machine fails on it or has an output. -/
theorem Mode.speaks_iff : m.Speaks line ↔
    (∃ f, react m line = .fault f) ∨ ∃ o m', react m line = .take (some o) m' := by
  constructor
  · intro h
    by_cases hlong : lineBufLength < line.length
    · exact Or.inl ⟨_, react_of_long hlong⟩
    have hlen : line.length ≤ lineBufLength := by omega
    cases h with
    | long h => exact absurd h hlong
    | overflow h => exact Or.inl (react_of_lengthOverflows h)
    | event e h =>
      right
      rcases h with h | ⟨rfl, -⟩
      · exact ⟨_, _, react_of_isRcv h hlen⟩
      · cases hflag : m.awaitingReadyAsOk with
        | true => exact ⟨_, _, react_ready_of_flag hflag⟩
        | false => exact ⟨_, _, react_ready_of_not_flag hflag⟩
    | reply kind r hstate h => exact Or.inr ⟨_, _, react_of_isReply h hlen hstate⟩
  · rintro (⟨f, h⟩ | ⟨o, m', h⟩)
    · have hs := react_spec m line
      rw [h] at hs
      cases hs with
      | long hlong => exact .long hlong
      | crash p _ hp => exact .overflow (lengthOverflows_of_panic hp)
    · have hs := react_spec m line
      rw [h] at hs
      generalize ho : some o = out at hs
      cases hs with
      | ready _ hline => exact .event .ready (Or.inr ⟨hline, rfl⟩)
      | event e _ _ _ hparse => exact .event e (isEvent_of_parseEvent hparse)
      | rejected => cases ho
      | reply kind _ hstate _ hmatch =>
        -- the reply has an output only when it is well formed
        by_cases hreply : ∃ r, IsReply kind line r
        · obtain ⟨r, hr⟩ := hreply
          exact .reply kind r hstate hr
        · rw [replyOutput_eq_none hmatch hreply] at ho
          cases ho

/-- A line is swallowed when the line machine takes it without an output. -/
theorem Mode.swallows_iff : m.Swallows line m' ↔ react m line = .take none m' := by
  constructor
  · intro h
    cases h with
    | event hlen hevent hover hnone =>
      have hready : line ≠ utf8 "+READY" := fun hline => hnone .ready (Or.inr ⟨hline, rfl⟩)
      have hparse : (parseEvent line).run = .ok (.error .parse) := by
        rcases parseEvent_returns hover with ⟨e, he⟩ | he
        · exact absurd (isEvent_of_parseEvent he) (hnone e)
        · exact he
      rw [react_of_event hlen (by simp [startsWith_reset_of_isEventLine hevent]) hevent,
        if_neg (by simp [hready]), reactEvent, hparse]
    | reply kind hlen hstate hevent hmatch hreset hnone =>
      rw [react_of_matches hlen (by simpa using hreset) (by simp [hevent])
        (Mode.matches_iff.mpr ⟨kind, hstate, hmatch⟩), replyOutput_eq_none hmatch (by simpa)]
  · intro h
    have hs := react_spec m line
    rw [h] at hs
    generalize ho : (none : Option Output) = out at hs
    cases hs with
    | ready | event => cases ho
    | rejected e hlen hevent hparse =>
      refine .event hlen hevent ?_ ?_
      · intro hover
        obtain ⟨f, hf⟩ := react_of_lengthOverflows (m := m) hover
        cases hf.symm.trans h
      · intro e' he
        cases (parseEvent_of_isEvent he hlen).symm.trans hparse
    | reply kind hlen hstate hevent hmatch =>
      refine .reply kind hlen hstate hevent hmatch ?_ ?_
      · intro hreset
        cases (react_of_reset hlen (by simpa using hreset)).symm.trans h
      · intro r hr
        rw [replyOutput_of_isReply hr] at ho
        cases ho

end Lines

/-! ### Stepping again -/

section Steps

variable [Target]

/-- Stepping again and again, the line machine fails or has an output at last. -/
inductive Wakes : Mode → List UInt8 → Prop
  | now {m : Mode} {buf : List UInt8} :
    (∀ m' buf', driverMachine.next m buf ≠ .ok (none, m', buf')) → Wakes m buf
  | later {m m' : Mode} {buf buf' : List UInt8} :
    driverMachine.next m buf = .ok (none, m', buf') → Wakes m' buf' → Wakes m buf

theorem not_stuck_of_wakes {m : Mode} {buf : List UInt8} (h : Wakes m buf) :
    ¬ driverMachine.Stuck m buf := by
  induction h with
  | now h => exact fun hstuck => h _ _ (LineMachine.next_stuck hstuck)
  | later h _ ih =>
    intro hstuck
    cases (LineMachine.next_stuck hstuck).symm.trans h
    exact ih hstuck

theorem wakes_of_hides {m : Mode} {buf : List UInt8} (h : m.Hides buf) : Wakes m buf := by
  induction h with
  | @speaks m skipped line rest hskip hcr hspeaks =>
    refine .now fun m' buf' hn => ?_
    have hline := (LineMachine.next_skips hskip _).symm.trans hn
    rcases Mode.speaks_iff.mp hspeaks with ⟨f, hf⟩ | ⟨o, m₁, ho⟩
    · cases (next_of_fault hcr hf rest).symm.trans hline
    · cases (next_of_take hcr ho rest).symm.trans hline
  | @swallows m m' skipped line rest hskip hcr hswallows _ ih =>
    have hn := next_of_take hcr (Mode.swallows_iff.mp hswallows) rest
    exact .later ((LineMachine.next_skips hskip _).trans hn) ih

theorem hides_of_wakes {m : Mode} {buf : List UInt8} (h : Wakes m buf) : m.Hides buf := by
  induction h with
  | @now m buf h =>
    cases hn : driverMachine.next m buf with
    | error f =>
      obtain ⟨skipped, line, rest, hskip, hcr, hf, rfl⟩ := LineMachine.next_error_iff.mp hn
      exact .speaks hskip hcr (Mode.speaks_iff.mpr (Or.inl ⟨f, hf⟩))
    | ok q =>
      obtain ⟨o, m', buf'⟩ := q
      obtain ⟨skipped, hskip, ⟨rfl, -⟩ | ⟨line, hcr, htake, rfl⟩⟩ := LineMachine.next_inv hn
      · exact absurd hn (h _ _)
      · cases o with
        | none => exact absurd hn (h _ _)
        | some o => exact .speaks hskip hcr (Mode.speaks_iff.mpr (Or.inr ⟨o, m', htake⟩))
  | @later m m' buf buf' hn hw ih =>
    obtain ⟨skipped, hskip, ⟨-, rfl, -, hstuck⟩ | ⟨line, hcr, htake, rfl⟩⟩ :=
      LineMachine.next_inv hn
    · exact absurd hstuck (not_stuck_of_wakes hw)
    · exact .swallows hskip hcr (Mode.swallows_iff.mpr htake) ih

end Steps

/-! ### Polling again -/

namespace Driver

section

variable [Target]

/-- Polling again and again, with no other call in between, a poll returns something else than
`Poll.idle`, or panics. -/
inductive Wakes : Driver → Prop
  | now {d : Driver} : (∀ d', d.poll ≠ .ok (.idle, d')) → Wakes d
  | later {d d' : Driver} : d.poll = .ok (.idle, d') → Wakes d' → Wakes d

/-- After a poll that returns `Poll.idle`, polling again returns nothing else. -/
def IdleIsIdle (d : Driver) : Prop := ∀ d', d.poll = .ok (.idle, d') → ¬ d'.Wakes

/-- Nothing is left to send, and the first line of `rx` that is not skipped is swallowed in front of
a line that speaks. -/
def HidesLine (d : Driver) : Prop :=
  d.tx.len ≤ d.txInFlight ∧ ∃ skipped line rest m, driverMachine.Skips d.mode skipped ∧ cr ∉ line ∧
    d.mode.Swallows line m ∧ m.Hides rest ∧
    d.rx.data = crlf.unlines skipped ++ (line ++ cr :: lf :: rest)

variable {d d' : Driver}

theorem next_of_poll_idle (htx : d.tx.len ≤ d.txInFlight) (h : d.poll = .ok (.idle, d')) :
    driverMachine.next d.mode d.rx.data = .ok (none, d'.mode, d'.rx.data) ∧ SameTx d d' := by
  rcases poll_inv h with ⟨hlt, -⟩ | ⟨-, o, ho, hn, hsame⟩
  · omega
  · obtain rfl : none = o := pollOf_injective ho
    exact ⟨hn, hsame⟩

/-- With nothing to send, polling again is stepping again. -/
theorem wakes_iff (htx : d.tx.len ≤ d.txInFlight) :
    d.Wakes ↔ Rylr998.Wakes d.mode d.rx.data := by
  constructor
  · intro h
    induction h with
    | @now d h =>
      refine .now fun m' buf' hn => ?_
      obtain ⟨d', hp, -⟩ := poll_of_next htx hn
      exact h d' hp
    | @later d d' hp _ ih =>
      obtain ⟨hn, hsame⟩ := next_of_poll_idle htx hp
      exact .later hn (ih (hsame.tx_le htx))
  · intro h
    generalize hm : d.mode = m at h
    generalize hb : d.rx.data = buf at h
    induction h generalizing d with
    | now h =>
      subst hm hb
      refine .now fun d' hp => ?_
      exact h _ _ (next_of_poll_idle htx hp).1
    | later hn _ ih =>
      subst hm hb
      obtain ⟨d', hp, hm', hb', hsame⟩ := poll_of_next htx hn
      exact .later hp (ih (hsame.tx_le htx) hm' hb')

/-- `Poll.idle` is final exactly when no line is hidden. -/
theorem idleIsIdle_iff : d.IdleIsIdle ↔ ¬ d.HidesLine := by
  constructor
  · rintro hidle ⟨htx, skipped, line, rest, m, hskip, hcr, hswallows, hhides, hrx⟩
    have htake := next_of_take hcr (Mode.swallows_iff.mp hswallows) rest
    have hn := (LineMachine.next_skips hskip _).trans htake
    rw [driverMachine_term, ← hrx] at hn
    obtain ⟨d', hp, rfl, rfl, hsame⟩ := poll_of_next htx hn
    exact hidle d' hp ((wakes_iff (hsame.tx_le htx)).mpr (wakes_of_hides hhides))
  · intro hno d' hp hwakes
    rcases poll_inv hp with ⟨-, hneed, -⟩ | ⟨htx, o, ho, hn, hsame⟩
    · cases hneed
    obtain rfl : none = o := pollOf_injective ho
    have hw : Rylr998.Wakes d'.mode d'.rx.data := (wakes_iff (hsame.tx_le htx)).mp hwakes
    obtain ⟨skipped, hskip, ⟨-, hm, -, hstuck⟩ | ⟨line, hcr, htake, hrx⟩⟩ :=
      LineMachine.next_inv hn
    · rw [hm] at hw
      exact not_stuck_of_wakes hw hstuck
    · exact hno ⟨htx, skipped, line, _, _, hskip, hcr, Mode.swallows_iff.mpr htake,
        hides_of_wakes hw, hrx⟩

end

end Driver

/-- **Idle means idle** in a run exactly when at none of its polls a line is hidden behind one that
is swallowed. -/
theorem idle_is_idle_iff [Target] (ops : List Op) :
    (∀ d, PollAt ops d → d.IdleIsIdle) ↔ ∀ d, PollAt ops d → ¬ d.HidesLine := by
  simp only [Driver.idleIsIdle_iff]

section

attribute [local instance] Target.host

/-- Behind a `+RCV` line that is not well formed, `+READY` is not looked at. -/
theorem not_idle_is_idle : ¬ ∀ ops d, PollAt ops d → d.IdleIsIdle := by
  intro h
  have hrun : Runs [.pushRx (utf8 "+RCV=x\r\n+READY\r\n")]
      [.pushRx (utf8 "+RCV=x\r\n+READY\r\n") (.ok 16)]
      { Driver.new with rx := ⟨utf8 "+RCV=x\r\n+READY\r\n", by decide⟩ } := by
    unfold Runs
    decide +kernel
  have hpolls : (Driver.poll
      { Driver.new with rx := ⟨utf8 "+RCV=x\r\n+READY\r\n", by decide⟩ } >>= fun q =>
        q.2.poll.map fun r => (q.1, r.1)) = .ok (.idle, .event .ready) := by
    decide +kernel
  obtain ⟨⟨p, d'⟩, hp, hagain⟩ := Except.bind_eq_ok.mp hpolls
  obtain ⟨⟨p', d''⟩, hp', heq⟩ := Except.map_eq_ok.mp hagain
  obtain ⟨rfl, rfl⟩ : p = .idle ∧ p' = .event .ready := Prod.mk.inj heq
  refine h _ _ ⟨_, _, List.prefix_rfl, hrun⟩ d' hp (.now fun d₁ hp₁ => ?_)
  cases hp₁.symm.trans hp'

end

end Rylr998
