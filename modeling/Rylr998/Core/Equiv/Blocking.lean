import Rylr998.Core.Equiv.Lines
import Rylr998.Core.Equiv.Session

/-!
# Lines that block the receive buffer

A line that is neither an event nor the awaited reply stays at the front of `rx`, and no later line
is looked at while it is there. A message is therefore returned exactly when every line before it
is taken off in the mode it meets (`Passable`, `delivered_iff`).
-/

namespace Rylr998

open Framing

/-- A line with its terminator. -/
def terminated (line : List UInt8) : List UInt8 := line ++ [cr, lf]

/-- The mode once the driver has taken `line` off; there is none when it leaves the line in place or
panics in the parser. -/
def Mode.after [Target] (m : Mode) (line : List UInt8) : Option Mode :=
  if m.awaitingReadyAsOk && startsWith line (utf8 "+RESET") then
    some m
  else if isEventLine line then
    if m.awaitingReadyAsOk && line = utf8 "+READY" then some .idle
    else
      match (parseEvent line).run with
      | .ok _ => some m
      | .error _ => none
  else if m.matches line then
    some .idle
  else
    none

/-- From the mode `m` the driver takes all of the lines off. -/
def Passable [Target] (m : Mode) (ls : List (List UInt8)) : Prop := (ls.foldlM Mode.after m).isSome

/-- When the lines `pre` and then `line` are pushed, with a drain after each, the last drain returns
the event `e`. -/
def Delivered [Target] (d : Driver) (pre : List (List UInt8)) (line : List UInt8) (e : Event) :
    Prop :=
  ∃ pss ps d', d.feed ((pre ++ [line]).map terminated) = .ok (.ok pss, d') ∧
    pss.getLast? = some ps ∧ .event e ∈ ps

theorem terminated_fits {d : Driver} (hrx : d.rx.data = []) {line : List UInt8}
    (hlen : line.length ≤ lineBufLength) : d.rx.len + (terminated line).length ≤ rxBuf := by
  rw [HVec.len, hrx, terminated, List.length_append]
  simp only [List.length_nil, List.length_cons]
  unfold lineBufLength at hlen
  unfold rxBuf
  omega

section

variable [Target]

theorem after_eq_some {m m' : Mode} {line : List UInt8} (hlen : line.length ≤ lineBufLength)
    (h : m.after line = some m') :
    (react m line = .skip ∧ m' = m) ∨ ∃ o, react m line = .take o m' := by
  unfold Mode.after at h
  split_ifs at h with hreset hevent hready hmatches
  · cases h
    exact Or.inl ⟨react_of_reset hlen hreset, rfl⟩
  · cases h
    refine Or.inr ⟨some (.response .ok), ?_⟩
    rw [react_of_event hlen hreset hevent, if_pos hready]
  · have hreact : react m line = reactEvent m line := by
      rw [react_of_event hlen hreset hevent, if_neg hready]
    unfold reactEvent at hreact
    rcases hp : (parseEvent line).run with p | e | e
    all_goals rw [hp] at h hreact; cases h
    · exact Or.inr ⟨_, hreact⟩
    · exact Or.inr ⟨_, hreact⟩
  · cases h
    exact Or.inr ⟨_, react_of_matches hlen hreset hevent hmatches⟩

theorem after_eq_none {m : Mode} {line : List UInt8} (hlen : line.length ≤ lineBufLength)
    (h : m.after line = none) : react m line = .keep ∨ ∃ f, react m line = .fault f := by
  unfold Mode.after at h
  split_ifs at h with hreset hevent hready hmatches
  · have hreact : react m line = reactEvent m line := by
      rw [react_of_event hlen hreset hevent, if_neg hready]
    unfold reactEvent at hreact
    rcases hp : (parseEvent line).run with p | e | e
    all_goals rw [hp] at h hreact; cases h
    exact Or.inr ⟨_, hreact⟩
  · exact Or.inl (react_of_not_matches hlen hreset hevent hmatches)

/-! ### One line on an empty buffer -/

theorem drain_terminated_of_after {m m' : Mode} {line : List UInt8} (hcr : cr ∉ line)
    (hlen : line.length ≤ lineBufLength) (h : m.after line = some m') :
    ∃ os, driverMachine.drain m (terminated line) = .ok (os, m', []) := by
  have hempty (m : Mode) : driverMachine.drain m [] = .ok ([], m, []) :=
    LineMachine.drain_stuck (Or.inl rfl)
  rcases after_eq_some hlen h with ⟨hskip, rfl⟩ | ⟨_ | o, htake⟩
  · exact ⟨[], (LineMachine.drain_skip (M := driverMachine) hcr hskip).trans (hempty m')⟩
  · exact ⟨[], LineMachine.drain_none (next_of_take hcr htake [])⟩
  · exact ⟨[o], by
      rw [terminated, LineMachine.drain_some (next_of_take hcr htake []), hempty]; rfl⟩

theorem drain_terminated_of_isRcv {m : Mode} {line : List UInt8} {e : Event} (hcr : cr ∉ line)
    (hlen : line.length ≤ lineBufLength) (h : IsRcv line e) :
    driverMachine.drain m (terminated line) = .ok ([.event e], m, []) := by
  rw [terminated, LineMachine.drain_some (next_of_take hcr (react_of_isRcv h hlen) []),
    LineMachine.drain_stuck (Or.inl rfl)]
  rfl

/-- A line that is taken off: the session goes on in the mode after it. -/
theorem feed_terminated {d : Driver} (hrx : d.rx.data = []) {line : List UInt8} {os : List Output}
    {m : Mode} (hlen : line.length ≤ lineBufLength)
    (h : driverMachine.drain d.mode (terminated line) = .ok (os, m, [])) :
    ∃ d' : Driver, d'.rx.data = [] ∧ d'.mode = m ∧ ∀ cs, d.feed (terminated line :: cs) =
      (d'.feed cs).map fun q => (q.1.map ((d.handout ++ os.map Output.poll) :: ·), q.2) := by
  have hfit := terminated_fits hrx hlen
  have hdata : (d.received _ hfit).rx.data = terminated line := by
    rw [Driver.received, HVec.data_append, hrx, List.nil_append]
  obtain ⟨d', hd', hm, hb, -⟩ := Driver.drain_of_machine (d := d.received _ hfit) (hdata ▸ h)
  exact ⟨d', hb, hm, fun cs => Driver.feed_cons hfit hd' cs⟩

/-! ### A line that is left in place -/

/-- A chunk pushed behind a line that is left in place only makes `rx` longer. -/
theorem feed_keep {d : Driver} {line c r : List UInt8} (hcr : cr ∉ line)
    (hrx : d.rx.data ++ c = line ++ cr :: lf :: r) (hkeep : react d.mode line = .keep)
    (hfit : d.rx.len + c.length ≤ rxBuf) :
    ∃ d' : Driver, d'.rx.data = line ++ cr :: lf :: r ∧ d'.mode = d.mode ∧
      ∀ cs, d.feed (c :: cs) = (d'.feed cs).map fun q => (q.1.map (d.handout :: ·), q.2) := by
  have hdrain := LineMachine.drain_none (next_of_keep hcr hkeep r)
  rw [← hrx] at hdrain
  obtain ⟨d', hd', hm, hb, -⟩ := Driver.drain_of_machine (d := d.received c hfit) hdrain
  rw [List.map_nil, List.append_nil] at hd'
  exact ⟨d', hb.trans hrx, hm, Driver.feed_cons hfit hd'⟩

/-- While a line is left in place no drain returns an event. -/
theorem no_event_of_keep {d d' : Driver} {line r : List UInt8} (hcr : cr ∉ line)
    (hrx : d.rx.data = line ++ cr :: lf :: r) (hkeep : react d.mode line = .keep)
    {cs : List (List UInt8)} {pss : List (List Poll)} (h : d.feed cs = .ok (.ok pss, d')) :
    ∀ ps ∈ pss, ∀ e, .event e ∉ ps := by
  induction cs generalizing d r pss with
  | nil => cases h; simp
  | cons c cs ih =>
    rcases Nat.lt_or_ge rxBuf (d.rx.len + c.length) with hfull | hfit
    · obtain ⟨d₁, hd₁⟩ := Driver.feed_overflow hfull cs
      cases hd₁.symm.trans h
    have hlonger : d.rx.data ++ c = line ++ cr :: lf :: (r ++ c) := by rw [hrx]; simp
    obtain ⟨d₁, hrx₁, hm₁, hfeed⟩ := feed_keep hcr hlonger hkeep hfit
    rw [hfeed] at h
    obtain ⟨pss₁, hf, rfl⟩ := Driver.feed_map_eq_ok h
    intro ps hps e
    rcases List.mem_cons.mp hps with rfl | hps
    · exact Driver.event_not_mem_handout _ _
    · exact ih hrx₁ (hm₁ ▸ hkeep) hf ps hps e

/-- **A message is returned exactly when every line before it is taken off.** -/
theorem delivered_iff {d : Driver} (hrx : d.rx.data = []) {pre : List (List UInt8)}
    (hpre : ∀ l ∈ pre, cr ∉ l ∧ l.length ≤ lineBufLength) {line : List UInt8} {e : Event}
    (hcr : cr ∉ line) (hlen : line.length ≤ lineBufLength) (hrcv : IsRcv line e) :
    Delivered d pre line e ↔ Passable d.mode pre := by
  induction pre generalizing d with
  | nil =>
    refine iff_of_true ?_ rfl
    obtain ⟨d', -, -, hfeed⟩ := feed_terminated hrx hlen (drain_terminated_of_isRcv hcr hlen hrcv)
    exact ⟨[_], _, d', hfeed [], rfl, by simp [Output.poll]⟩
  | cons l pre ih =>
    obtain ⟨hl, hllen⟩ := hpre l List.mem_cons_self
    have hchunks : (l :: pre ++ [line]).map terminated =
        terminated l :: (pre ++ [line]).map terminated := rfl
    cases hafter : d.mode.after l with
    -- the first line is taken off: the rest of the session starts in the mode `m`
    | some m =>
      have hpass : Passable d.mode (l :: pre) ↔ Passable m pre := by
        simp [Passable, List.foldlM_cons, hafter]
      obtain ⟨os, hdrain⟩ := drain_terminated_of_after hl hllen hafter
      obtain ⟨d₁, hrx₁, rfl, hfeed⟩ := feed_terminated hrx hllen hdrain
      rw [hpass, ← ih hrx₁ fun x hx => hpre x (List.mem_cons_of_mem _ hx)]
      unfold Delivered
      rw [hchunks, hfeed]
      constructor
      · rintro ⟨pss, ps, d', h, hlast, hmem⟩
        obtain ⟨pss₁, hf, rfl⟩ := Driver.feed_map_eq_ok h
        have hlength := Driver.feed_length hf
        cases pss₁ with
        | nil => simp at hlength
        | cons p pss₁ =>
          rw [List.getLast?_cons_cons] at hlast
          exact ⟨_, ps, _, hf, hlast, hmem⟩
      · rintro ⟨pss, ps, d', h, hlast, hmem⟩
        refine ⟨_ :: pss, ps, d', by rw [h]; rfl, ?_, hmem⟩
        rw [List.getLast?_cons, hlast]
        rfl
    | none =>
      -- the first line stays in place, or the drain after it panics
      refine iff_of_false ?_ (by simp [Passable, List.foldlM_cons, hafter])
      rintro ⟨pss, ps, d', h, hlast, hmem⟩
      rw [hchunks] at h
      have hfit := terminated_fits hrx hllen
      have hdata : d.rx.data ++ terminated l = terminated l := by rw [hrx, List.nil_append]
      rcases after_eq_none hllen hafter with hkeep | ⟨f, hfault⟩
      · obtain ⟨d₁, hrx₁, hm₁, hfeed⟩ := feed_keep hl hdata hkeep hfit
        rw [hfeed] at h
        obtain ⟨pss₁, hf, rfl⟩ := Driver.feed_map_eq_ok h
        rcases List.mem_cons.mp (List.mem_of_getLast? hlast) with rfl | hps
        · exact Driver.event_not_mem_handout _ _ hmem
        · exact no_event_of_keep hl hrx₁ (hm₁ ▸ hkeep) hf ps hps e hmem
      · have hdrain : driverMachine.drain d.mode (terminated l) = .error f :=
          LineMachine.drain_error (next_of_fault hl hfault [])
        rw [← hdata] at hdrain
        rw [Driver.feed_cons_error hfit
          (Driver.drain_of_machine_error (d := d.received _ hfit) hdrain)] at h
        cases h

/-- **Head-of-line blocking.** In a session that pushes line after line, all messages are returned
in the drain after their line exactly when the driver takes every line before a message off. -/
theorem no_blocking_iff {d : Driver} (hrx : d.rx.data = []) {ls : List (List UInt8)}
    (hls : ∀ l ∈ ls, cr ∉ l ∧ l.length ≤ lineBufLength) :
    (∀ pre line post e, ls = pre ++ line :: post → IsRcv line e → Delivered d pre line e) ↔
      ∀ pre line post e, ls = pre ++ line :: post → IsRcv line e → Passable d.mode pre := by
  refine forall_congr' fun pre => forall_congr' fun line => forall_congr' fun post =>
    forall_congr' fun e => forall₂_congr fun heq hrcv => ?_
  subst heq
  obtain ⟨hcr, hlen⟩ := hls line (by simp)
  exact delivered_iff hrx (fun l hl => hls l (by simp [hl])) hcr hlen hrcv

end

section

attribute [local instance] Target.host

/-- A message behind a late reply is returned when the command still waits for it. -/
theorem no_blocking_late_reply : Delivered { Driver.new with state := .awaiting .ack }
    [utf8 "+OK"] (rcvLine 1 [65] 0 0) (.recv 1 [65] 0 0) := by
  have hls : ∀ l ∈ [utf8 "+OK", rcvLine 1 [65] 0 0], cr ∉ l ∧ l.length ≤ lineBufLength := by decide
  refine (no_blocking_iff rfl hls).mpr ?_ [utf8 "+OK"] _ [] _ rfl
    (isRcv_rcvLine 1 [65] 0 0 (by decide))
  rintro (_ | ⟨l, _ | ⟨l', pre⟩⟩) line post e heq -
  · rfl
  · obtain ⟨rfl, -⟩ := List.cons.inj heq
    rfl
  · have := congrArg List.length heq
    simp at this

/-- A message behind a line of noise is not returned. -/
theorem blocked_by_noise : ¬ ∀ d ls, Reachable d → d.rx.data = [] →
    (∀ l ∈ ls, cr ∉ l ∧ l.length ≤ lineBufLength) →
    (∀ e d', d.feed (ls.map terminated) ≠ .ok (.error e, d')) →
    ∀ pre line post e, ls = pre ++ line :: post → IsRcv line e → Delivered d pre line e := by
  intro h
  have hpolls : (Driver.feed .new ([utf8 "noise", rcvLine 1 [65] 0 0].map terminated)).map
      (fun q => q.1) = .ok (.ok [[], []]) := by decide +kernel
  have hfit : ∀ e d', Driver.feed .new ([utf8 "noise", rcvLine 1 [65] 0 0].map terminated) ≠
      .ok (.error e, d') := by
    intro e d' he
    rw [he] at hpolls
    cases hpolls
  obtain ⟨pss, ps, d', hfeed, hlast, hmem⟩ := h .new [utf8 "noise", rcvLine 1 [65] 0 0]
    ⟨[], [], rfl⟩ rfl (by decide) hfit [utf8 "noise"] _ [] _ rfl
    (isRcv_rcvLine 1 [65] 0 0 (by decide))
  rw [show Driver.feed .new ([utf8 "noise", rcvLine 1 [65] 0 0].map terminated) = _ from hfeed]
    at hpolls
  obtain rfl : pss = [[], []] := by simpa [Except.map] using hpolls
  obtain rfl : ps = [] := by simpa using hlast.symm
  cases hmem

end

end Rylr998
