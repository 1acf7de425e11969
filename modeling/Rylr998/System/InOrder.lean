import Rylr998.System.Prompt

/-!
# What the radio sends is returned in order

In a clean run the messages and the answers of the radio reach the caller in the order in which the
radio sends them, each once (`delivered_in_order`): what is missing is what the lines on their way
carry (`World.Carries`). And the caller can always fetch what is missing: from every state that a
clean run reaches it polls, acknowledges and pushes until it has all of it, and the radio need not
do anything for that (`delivery_possible`).
-/

namespace Rylr998

open Framing Labelled

/-- The message that the radio sends. -/
def Label.message? : Label → Option Event
  | .message e => some e
  | _ => none

/-- The event among the outputs. -/
def Output.event? : Output → Option Event
  | .event e => some e
  | .response _ => none

theorem outputs_event? (calls : List Call) :
    (outputs calls).filterMap Output.event? = calls.filterMap Call.event? := by
  rw [outputs, List.filterMap_filterMap]
  congr 1
  funext c
  rcases c with _ | _ | p | _ <;> try rfl
  cases p <;> rfl

theorem output?_event? (ls : List Label) :
    (ls.filterMap Label.output?).filterMap Output.event? = ls.filterMap Label.message? := by
  rw [List.filterMap_filterMap]
  congr 1
  funext l
  cases l <;> rfl

/-- What a line of the radio carries. A `+READY` is taken as an answer: in this system the radio
sends it only at the end of a factory reset. -/
def carried [Target] (line : List UInt8) : Option Output :=
  if line = utf8 "+READY" then some (.response .ok)
  else if isEventLine line then
    match (parseEvent line).run with
    | .ok (.ok e) => some (.event e)
    | _ => none
  else replyOutput line

/-- The lines on their way carry `os`. -/
def World.Carries [Target] (w : World) (os : List Output) : Prop :=
  ∃ ls, w.driver.rx.data ++ w.wire = crlf.unlines ls ∧ (∀ l ∈ ls, cr ∉ l) ∧
    os = ls.filterMap carried

section

variable [Target]

/-! ### What the lines carry -/

section

variable {m : Mode} {cmd : Command} {line : List UInt8} {e : Event} {r : Response}

theorem carried_of_isRcv (h : IsRcv line e) (hlen : line.length ≤ lineBufLength) :
    carried line = some (.event e) := by
  obtain ⟨t, ht⟩ := h.exists_eq
  have hready : line ≠ utf8 "+READY" := ht ▸ append_ne_of_ne (by decide)
  rw [carried, if_neg hready, if_pos (isEventLine_of_isRcv h),
    parseEvent_of_isRcv h (length_le_usizeMax hlen)]

theorem carried_of_isAnswer (h : IsAnswer cmd line r) : carried line = some (.response r) := by
  rcases h with h | ⟨-, rfl, rfl⟩
  · have hready : line ≠ utf8 "+READY" := by
      rintro rfl
      cases isEventLine_of_isReply h
    rw [carried, if_neg hready, if_neg (by rw [isEventLine_of_isReply h]; decide),
      replyOutput_of_isReply h]
  · rfl

theorem carried_reset : carried (utf8 "+RESET") = none := by
  rw [carried, if_neg (by decide), if_neg (by decide)]
  rfl

theorem honours_of_isMessage (h : IsMessage line) (hlen : line.length ≤ lineBufLength) :
    driverMachine.Honours carried m line := by
  obtain ⟨e, he⟩ := h
  exact Or.inr ⟨m, by rw [carried_of_isRcv he hlen]; exact react_of_isRcv he hlen⟩

theorem honours_of_precedes (hflag : m.awaitingReadyAsOk = decide (cmd = .factoryReset))
    (h : Precedes cmd line) (hlen : line.length ≤ lineBufLength) :
    driverMachine.Honours carried m line := by
  rcases h with h | ⟨rfl, rfl⟩
  · exact honours_of_isMessage h hlen
  · exact Or.inl ⟨react_of_reset hlen (by rw [hflag]; decide), carried_reset⟩

/-- An answer is honoured, or it is kept while the command is still being sent. -/
theorem honours_of_isAnswer (hflag : m.awaitingReadyAsOk = decide (cmd = .factoryReset))
    (hkind : ∀ kind, m.state = .awaiting kind → kind = cmd.awaitKind) (h : IsAnswer cmd line r)
    (hlen : line.length ≤ lineBufLength) :
    react m line = .keep ∧ (∀ kind, m.state ≠ .awaiting kind) ∨
      driverMachine.Honours carried m line := by
  have hcarried := carried_of_isAnswer h
  rcases h with h | ⟨rfl, rfl, rfl⟩
  · by_cases hstate : ∃ kind, m.state = .awaiting kind
    · obtain ⟨kind, hstate⟩ := hstate
      refine Or.inr (Or.inr ⟨.idle, ?_⟩)
      rw [hcarried]
      exact react_of_isReply (hkind kind hstate ▸ h) hlen hstate
    · push Not at hstate
      exact Or.inl ⟨react_of_isReply_of_not h hlen hstate, hstate⟩
  · refine Or.inr (Or.inr ⟨.idle, ?_⟩)
    rw [hcarried]
    exact react_ready_of_flag (by rw [hflag]; rfl)

end

section

variable {w w' : World} {ls : List (List UInt8)}

/-- The driver puts out what the lines on their way carry, but for an answer that comes while the
command is still being sent. -/
theorem InTransit.honours (h : InTransit w ls) (hlen : ∀ l ∈ ls, l.length ≤ lineBufLength) :
    ∀ l ∈ ls, react w.driver.mode l = .keep ∧ w.driver.state = .sendingTx ∨
      driverMachine.Honours carried w.driver.mode l := by
  cases h with
  | idle _ _ _ _ hls => exact fun l hl => Or.inr (honours_of_isMessage (hls l hl) (hlen l hl))
  | unanswered h =>
    exact fun l hl => Or.inr (honours_of_precedes h.serves.flag (h.precedes l hl) (hlen l hl))
  | @answered cmd r answered before after line hstate hs _ _ _ _ heq hbefore hline hafter =>
    subst heq
    refine List.forall_mem_append.mpr ⟨?_, List.forall_mem_cons.mpr ⟨?_, ?_⟩⟩
    · exact fun l hl => Or.inr (honours_of_precedes hs.flag (hbefore l hl) (hlen l (by simp [hl])))
    · refine (honours_of_isAnswer hs.flag hs.awaiting hline (hlen line (by simp))).imp_left ?_
      rintro ⟨hkeep, hnot⟩
      refine ⟨hkeep, ?_⟩
      cases hd : w.driver.state with
      | idle => exact absurd hd hstate
      | sendingTx => rfl
      | awaiting kind => exact absurd hd (hnot kind)
    · exact fun l hl => Or.inr (honours_of_isMessage (hafter l hl) (hlen l (by simp [hl])))

theorem World.carries_init : World.init.Carries [] := ⟨[], rfl, nofun, rfl⟩

/-- Nothing is on its way any more. -/
theorem World.Carries.eq_nil {os : List Output} (h : w.Carries os) (hrx : w.driver.rx.data = [])
    (hwire : w.wire = []) : os = [] := by
  obtain ⟨ls, hbytes, -, rfl⟩ := h
  rw [hrx, hwire] at hbytes
  cases ls with
  | nil => rfl
  | cons l ls => simp at hbytes

/-- The lines on their way, with all that is known of them. -/
theorem World.Inv.lines_of_carries {os : List Output} (h : w.Inv) (hc : w.Carries os) :
    ∃ ls, w.driver.rx.data ++ w.wire = crlf.unlines ls ∧ (∀ l ∈ ls, cr ∉ l) ∧
      (∀ l ∈ ls, l.length ≤ lineBufLength) ∧ InTransit w ls ∧ os = ls.filterMap carried := by
  obtain ⟨ls, hbytes, hcr, rfl⟩ := hc
  obtain ⟨-, ms, hbytes', hms, htr⟩ := h
  obtain rfl := crlf.unlines_inj hcr (fun l hl => (hms l hl).1) (hbytes.symm.trans hbytes')
  exact ⟨ls, hbytes, hcr, fun l hl => (hms l hl).2, htr, rfl⟩

/-! ### Delivery in order -/

/-- The radio sends a line. -/
theorem World.Carries.sent {os : List Output} {line : List UInt8} (h : w.Carries os)
    (hcr : cr ∉ line) (hdriver : w'.driver = w.driver)
    (hwire : w'.wire = w.wire ++ (line ++ [cr, lf])) :
    w'.Carries (os ++ (carried line).toList) := by
  obtain ⟨ls, hbytes, hls, rfl⟩ := h
  refine ⟨ls ++ [line], ?_, ?_, ?_⟩
  · rw [hdriver, hwire, ← List.append_assoc, hbytes]
    simp
  · exact List.forall_mem_append.mpr ⟨hls, List.forall_mem_singleton.mpr hcr⟩
  · rw [List.filterMap_append]
    cases hc : carried line <;> simp [hc]

/-- A move adds what it sends to what the lines carry, and takes off what it returns. -/
theorem World.Moves.carries {l : Label} {os : List Output} (hinv : w.Inv) (h : w.Moves l w')
    (hc : w.Carries os) :
    ∃ os', w'.Carries os' ∧ os ++ l.output?.toList = (l.call?.bind Call.output?).toList ++ os' := by
  cases h with
  | @call op c d hop hs =>
    obtain ⟨ls, hbytes, hcr, hlen, htr, rfl⟩ := hinv.lines_of_carries hc
    -- a call that leaves the bytes of `rx` alone returns nothing
    have hkeep (ho : c.output? = none) (hrx : d.rx.data = w.driver.rx.data) :
        ∃ os', (w.called c d).Carries os' ∧
          ls.filterMap carried ++ [] = c.output?.toList ++ os' := by
      refine ⟨ls.filterMap carried, ⟨ls, ?_, hcr, rfl⟩, by rw [ho]; simp⟩
      rw [← hbytes, ← hrx]
      rfl
    cases Driver.step_spec hinv.driver hs with
    | busy | refuse | accept | needTx | ack | sent => exact hkeep rfl rfl
    | push bytes | overflow bytes => exact absurd rfl (hop bytes)
    | lines o _ _ hn =>
      obtain ⟨xs, ms, rfl, hrest, hout⟩ := LineMachine.next_honours hn hbytes hcr
        fun l hl => (htr.honours hlen l hl).imp_left And.left
      refine ⟨ms.filterMap carried,
        ⟨ms, hrest, fun l hl => hcr l (List.mem_append_right _ hl), rfl⟩, ?_⟩
      show _ = (Call.poll (pollOf o)).output?.toList ++ _
      rw [output?_pollOf, ← hout, List.filterMap_append]
      exact List.append_nil _
  | push hwire hs =>
    obtain ⟨ls, hbytes, hcr, rfl⟩ := hc
    refine ⟨ls.filterMap carried, ⟨ls, ?_, hcr, rfl⟩, List.append_nil _⟩
    cases Driver.step_spec hinv.driver hs with
    | push => rw [← hbytes, hwire]; simp
  | message hl hcr hlen =>
    refine ⟨_, hc.sent hcr rfl rfl, ?_⟩
    rw [carried_of_isRcv hl hlen]
    rfl
  | reply _ hl _ hcr =>
    refine ⟨_, hc.sent hcr rfl rfl, ?_⟩
    rw [carried_of_isAnswer (Or.inl hl)]
    rfl
  | reset =>
    refine ⟨_, hc.sent (by decide : cr ∉ utf8 "+RESET") rfl rfl, ?_⟩
    rw [carried_reset]
    rfl
  | ready =>
    exact ⟨_, hc.sent (by decide : cr ∉ utf8 "+READY") rfl rfl, rfl⟩

theorem World.Carries.of_path {ls : List Label} {os : List Output} (hinv : w.Inv)
    (hc : w.Carries os) (h : Path World.Moves w ls w') :
    ∃ os', w'.Carries os' ∧
      os ++ ls.filterMap Label.output? = outputs (ls.filterMap Label.call?) ++ os' := by
  induction h generalizing os with
  | nil => exact ⟨os, hc, List.append_nil _⟩
  | @cons w w₁ w' l ls hmove _ ih =>
    obtain ⟨os₁, hc₁, hout⟩ := hmove.carries hinv hc
    obtain ⟨os', hc', hrest⟩ := ih (hinv.of_path (.single hmove)) hc₁
    refine ⟨os', hc', ?_⟩
    have hone : outputs (l.call?.toList) = (l.call?.bind Call.output?).toList := by
      cases l.call? with
      | none => rfl
      | some c => exact outputs_singleton c
    rw [Component.filterMap_cons, Component.filterMap_cons, outputs_append, hone,
      ← List.append_assoc, hout, List.append_assoc, hrest, List.append_assoc]

/-- Of what is sent and returned, the messages are the events. -/
theorem World.Carries.messages {ls : List Label} {os : List Output} (hinv : w.Inv)
    (hc : w.Carries os) (h : Path World.Moves w ls w') :
    ∃ os', w'.Carries os' ∧ os.filterMap Output.event? ++ ls.filterMap Label.message? =
      (ls.filterMap Label.call?).filterMap Call.event? ++ os'.filterMap Output.event? := by
  obtain ⟨os', hc', hout⟩ := hc.of_path hinv h
  have hevents := congrArg (List.filterMap Output.event?) hout
  rw [List.filterMap_append, List.filterMap_append, output?_event?, outputs_event?] at hevents
  exact ⟨os', hc', hevents⟩

/-- **Delivery in order.** In a clean run what the radio has sent, messages and answers, is what the
caller has been returned and, behind it, what the lines on their way carry. -/
theorem delivered_in_order {ls : List Label} (h : Path World.Happens World.init ls w)
    (hclean : ∀ l ∈ ls, l.Clean) :
    ∃ os, w.Carries os ∧
      ls.filterMap Label.output? = outputs (ls.filterMap Label.call?) ++ os :=
  World.carries_init.of_path World.inv_init (World.moves_of_clean h hclean)

/-! ### Fetching what is missing -/

/-- The caller goes on without a new command, and the radio does nothing. -/
def World.Goes (w : World) (calls : List Call) (w' : World) : Prop :=
  Path World.Moves w (calls.map Label.call) w' ∧ Rylr998.accepted calls = []

theorem World.Goes.refl (w : World) : w.Goes [] w := ⟨.nil w, rfl⟩

theorem World.Goes.cons {w₁ : World} {c : Call} {calls : List Call} (h : w.Moves (.call c) w₁)
    (hc : c.accepted? = none) (h' : w₁.Goes calls w') : w.Goes (c :: calls) w' := by
  refine ⟨.cons h h'.1, ?_⟩
  rw [Rylr998.accepted, List.filterMap_cons_none hc]
  exact h'.2

/-- The caller acknowledges what it has been handed out, all at once: the driver waits for the
reply. -/
theorem World.Inv.goes_sent (h : w.Inv) :
    ∃ calls w', w.Goes calls w' ∧ w'.driver.state ≠ .sendingTx := by
  by_cases hstate : w.driver.state = .sendingTx
  case neg => exact ⟨[], w, .refl w, hstate⟩
  -- it is handed out, if it has not been yet, and acknowledged
  let out : World := { w with driver := { w.driver with txInFlight := w.driver.tx.len } }
  let d := (out.driver.dropSent out.driver.tx.len).advance
  have hack : out.Moves (.call (.ackTx out.driver.tx.len)) { out with driver := d } :=
    .ackTx (Driver.ackTx_eq _ _ (Nat.le_refl _))
  have hd : d.state ≠ .sendingTx := by
    obtain ⟨kind, hkind⟩ := Option.ne_none_iff_exists'.mp (h.driver.sendingTx hstate).2
    have hcount : out.driver.ackCount out.driver.tx.len = out.driver.tx.len := Nat.min_self _
    have htx : (out.driver.dropSent out.driver.tx.len).tx.data = [] := by
      rw [Driver.dropSent, HVec.data_dropFront, hcount]
      exact List.drop_length
    rw [show d = _ from Driver.advance_of_pending htx hstate hkind]
    simp
  rcases Nat.lt_or_eq_of_le h.driver.inFlight_le with hlt | heq
  · have hpoll : w.Moves (.call (.poll (.needTx _))) out :=
      .poll_quiet (Driver.poll_needTx hlt) rfl
    exact ⟨_, _, .cons hpoll rfl (.cons hack rfl (.refl _)), hd⟩
  · have hout : out = w := by
      show { w with driver := { w.driver with txInFlight := w.driver.tx.len } } = w
      rw [← heq]
    rw [hout] at hack
    exact ⟨_, _, .cons hack rfl (.refl _), hd⟩

omit [Target] in
/-- There is room for a byte more when no line in `rx` is complete. -/
theorem length_lt_rxBuf {rx wire : List UInt8} (h : rx ++ wire = crlf.unlines ls)
    (hcr : ∀ l ∈ ls, cr ∉ l) (hlen : ∀ l ∈ ls, l.length ≤ lineBufLength)
    (hnone : crlf.splitLine rx = none) : rx.length < rxBuf := by
  cases ls with
  | nil =>
    obtain ⟨rfl, -⟩ := List.append_eq_nil_iff.mp h
    decide
  | cons l ls =>
    have hline := hlen l List.mem_cons_self
    unfold lineBufLength at hline
    by_contra hfull
    unfold rxBuf at hfull
    -- the first line would be complete
    have hfront : l ++ [cr, lf] <+: rx := by
      have hwhole : l ++ [cr, lf] <+: rx ++ wire := by
        rw [h]
        exact ⟨crlf.unlines ls, by simp⟩
      refine List.prefix_of_prefix_length_le hwhole (List.prefix_append _ _) ?_
      simp only [List.length_append, List.length_cons, List.length_nil]
      omega
    obtain ⟨rest, rfl⟩ := hfront
    have hsplit := crlf.splitLine_line (hcr l List.mem_cons_self) rest
    rw [List.append_assoc] at hnone
    cases hsplit.symm.trans hnone

/-- The caller pushes byte after byte and polls while a line is complete. -/
theorem World.Inv.goes_fetched (h : w.Inv) (hstate : w.driver.state ≠ .sendingTx) :
    ∃ calls w', w.Goes calls w' ∧ w'.driver.rx.data = [] ∧ w'.wire = [] := by
  -- a push takes a byte off the wire, a poll takes a line off `rx`
  induction hn : 2 * w.wire.length + w.driver.rx.len using Nat.strong_induction_on
    generalizing w with
  | _ n ih =>
  subst hn
  obtain ⟨ls, hbytes, hls, htr⟩ := h.transit
  have hcr : ∀ l ∈ ls, cr ∉ l := fun l hl => (hls l hl).1
  have hlen : ∀ l ∈ ls, l.length ≤ lineBufLength := fun l hl => (hls l hl).2
  have hgo {c : Call} {w₁ : World} (hmove : w.Moves (.call c) w₁) (hc : c.accepted? = none)
      (hstate' : w₁.driver.state ≠ .sendingTx)
      (hless : 2 * w₁.wire.length + w₁.driver.rx.len < 2 * w.wire.length + w.driver.rx.len) :
      ∃ calls w', w.Goes calls w' ∧ w'.driver.rx.data = [] ∧ w'.wire = [] := by
    obtain ⟨calls, w', hgoes, hdone⟩ := ih _ hless (h.of_path (.single hmove)) hstate' rfl
    exact ⟨c :: calls, w', .cons hmove hc hgoes, hdone⟩
  obtain ⟨o, m, buf, hnext, hshorter | hnone⟩ := LineMachine.next_of_honours hbytes hcr
    fun l hl => (htr.honours hlen l hl).resolve_left fun hk => hstate hk.2
  · have htx : w.driver.tx.len ≤ w.driver.txInFlight := by
      cases hd : w.driver.state with
      | idle => exact Nat.le_of_eq (h.driver.idle hd).symm
      | sendingTx => exact absurd hd hstate
      | awaiting kind => exact h.driver.tx_le_of_awaiting hd
    obtain ⟨d, hpoll, hmode, hrx, -⟩ := Driver.poll_of_next htx hnext
    refine hgo (.poll hpoll) rfl ?_ ?_
    · show d.mode.state ≠ .sendingTx
      rw [hmode]
      rcases next_mode hnext with rfl | rfl
      · exact hstate
      · nofun
    · show 2 * w.wire.length + d.rx.data.length < _
      rw [hrx]
      exact Nat.add_lt_add_left hshorter _
  · cases hwire : w.wire with
    | nil =>
      refine ⟨[], w, .refl w, ?_, hwire⟩
      cases ls with
      | nil => exact (List.append_eq_nil_iff.mp hbytes).1
      | cons l ls =>
        -- all of the first line would be in `rx`
        rw [hwire, List.append_nil, crlf.unlines_cons] at hbytes
        have hsplit := crlf.splitLine_line (hcr l List.mem_cons_self) (crlf.unlines ls)
        rw [hbytes] at hnone
        cases hsplit.symm.trans hnone
    | cons b rest =>
      have hroom : w.driver.rx.len + [b].length ≤ rxBuf := length_lt_rxBuf hbytes hcr hlen hnone
      have hpush : w.Moves (.call (.pushRx [b] (.ok 1)))
          { w with driver := { w.driver with rx := w.driver.rx.append [b] hroom }, wire := rest } :=
        .push hwire (Driver.step_pushRx (Driver.pushRx_of_le hroom))
      refine hgo hpush rfl hstate ?_
      show 2 * rest.length + (w.driver.rx.data ++ [b]).length <
        2 * w.wire.length + w.driver.rx.data.length
      rw [hwire, List.length_append, List.length_cons, List.length_cons, List.length_nil]
      omega

/-- **Delivery is possible.** After a clean run the caller can go on by itself until it has been
returned all that the radio has sent, in order and each once. -/
theorem delivery_possible {ls : List Label} (h : Path World.Happens World.init ls w)
    (hclean : ∀ l ∈ ls, l.Clean) :
    ∃ calls w', Path World.Moves w (calls.map Label.call) w' ∧ accepted calls = [] ∧
      w'.driver.rx.data = [] ∧ w'.wire = [] ∧
      ls.filterMap Label.output? = outputs (ls.filterMap Label.call?) ++ outputs calls := by
  have hmoves := World.moves_of_clean h hclean
  have hinv := World.inv_init.of_path hmoves
  obtain ⟨os, hos, hsent⟩ := World.carries_init.of_path World.inv_init hmoves
  obtain ⟨calls, w₁, hgoes, hstate⟩ := hinv.goes_sent
  obtain ⟨calls', w', hgoes', hrx, hwire⟩ := (hinv.of_path hgoes.1).goes_fetched hstate
  have hpath : Path World.Moves w ((calls ++ calls').map Label.call) w' := by
    rw [List.map_append]
    exact hgoes.1.append hgoes'.1
  have haccepted : accepted (calls ++ calls') = [] := by
    rw [accepted_append, hgoes.2, hgoes'.2]
    rfl
  refine ⟨calls ++ calls', w', hpath, haccepted, hrx, hwire, ?_⟩
  -- what the lines carried at first is what has been returned since
  obtain ⟨os', hos', hreturned⟩ := hos.of_path hinv hpath
  have hcalls : ((calls ++ calls').map Label.call).filterMap Label.call? = calls ++ calls' := by
    rw [List.filterMap_map]
    exact List.filterMap_some
  have hsilent : ((calls ++ calls').map Label.call).filterMap Label.output? = [] := by
    rw [List.filterMap_map]
    exact List.filterMap_eq_nil_iff.mpr fun _ _ => rfl
  rw [hcalls, hsilent, hos'.eq_nil hrx hwire, List.append_nil, List.append_nil] at hreturned
  rw [← hreturned]
  exact hsent

end

end

section

attribute [local instance] Target.host

theorem delivered_in_order_ping : ∃ w : World, w.responses = [.ok] ∧
    ∃ os, w.Carries os ∧ [Output.response .ok] =
      outputs (exchangeCalls .ping (utf8 "+OK") .ok) ++ os := by
  obtain ⟨d, hd, hquiet⟩ := Driver.quiet_new.exchanged atOnce_ping
  obtain ⟨w, hpath, -, -⟩ := World.quiet_init.path_of_exchanged atOnce_ping hd hquiet
  exact ⟨w, (World.since_of_path hpath).responses,
    delivered_in_order (hpath.mono .move) (by decide)⟩

/-- A message that nobody has asked for. -/
theorem delivery_possible_message : ∃ (w : World) (calls : List Call) (w' : World),
    Path World.Moves w (calls.map Label.call) w' ∧ accepted calls = [] ∧
      w'.driver.rx.data = [] ∧ w'.wire = [] ∧
      [Output.event (.recv 1 [65] 0 0)] = outputs calls := by
  have hrcv : IsRcv (rcvLine 1 [65] 0 0) (.recv 1 [65] 0 0) := isRcv_rcvLine _ _ _ _ (by decide)
  have hmove : World.init.Moves (.message (.recv 1 [65] 0 0))
      (World.init.sent (rcvLine 1 [65] 0 0)) := .message hrcv (by decide) (by decide)
  exact ⟨_, delivery_possible (.single (.move hmove)) (by decide)⟩

end

end Rylr998
