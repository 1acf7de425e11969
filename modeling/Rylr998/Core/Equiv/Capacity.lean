import Rylr998.Core.Equiv.Fragments

/-!
# The capacity of `rx`

Between two reads `rx` holds the unfinished last line of what was received, so a read overflows
exactly when it is longer than the room beside that part (`feed_fits_iff`, and for event streams
`capacity_iff`). A message with a payload of 240 bytes leaves up to 270 bytes unfinished, so 512
bytes are too few for a read of 256 bytes (`capacity_exceeded`).
-/

namespace Rylr998

open Framing

/-- An event line of a radio that keeps its limits: `+READY`, or a `+RCV` line with canonical
numerals and a payload of at most 240 bytes without `\r`. -/
def IsConforming (line : List UInt8) : Prop :=
  line = utf8 "+READY" ∨ ∃ fromAddr data rssi snr, data.length ≤ 240 ∧ cr ∉ data ∧
    line = rcvLine fromAddr data rssi snr

/-- `rx` has room for every chunk of the session. -/
def Fits [Target] (d : Driver) (cs : List (List UInt8)) : Prop :=
  ∃ pss d', d.feed cs = .ok (.ok pss, d')

section

variable [Target]

theorem IsConforming.exists_event {line : List UInt8} (h : IsConforming line) :
    (∃ e, IsEvent line e) ∧ cr ∉ line ∧ line.length ≤ lineBufLength := by
  rcases h with rfl | ⟨fromAddr, data, rssi, snr, hdata, hcr, rfl⟩
  · exact ⟨⟨.ready, Or.inr ⟨rfl, rfl⟩⟩, by decide, by decide⟩
  · refine ⟨⟨_, Or.inl (isRcv_rcvLine _ _ _ _ (by have := usizeMax_ge; omega))⟩, ?_, ?_⟩
    · rwa [cr_mem_rcvLine]
    · have := length_rcvLine_le fromAddr data rssi snr hdata
      unfold lineBufLength
      omega

theorem exists_events {ls : List (List UInt8)} (h : ∀ l ∈ ls, IsConforming l) :
    ∃ es, List.Forall₂ IsEvent ls es := by
  induction ls with
  | nil => exact ⟨[], .nil⟩
  | cons l ls ih =>
    obtain ⟨es, hes⟩ := ih fun x hx => h x (List.mem_cons_of_mem _ hx)
    obtain ⟨⟨e, he⟩, -⟩ := (h l List.mem_cons_self).exists_event
    exact ⟨e :: es, .cons he hes⟩

/-- A session on accepted lines fits exactly when every chunk fits beside the unfinished line that
is there when it arrives. -/
theorem feed_fits_iff {d : Driver} (htx : d.tx.len ≤ d.txInFlight) {ls : List (List UInt8)}
    {os : List Output} {m : Mode} (hacc : driverMachine.Accepts d.mode ls os m)
    {cs : List (List UInt8)} (hcs : d.rx.data ++ cs.flatten = crlf.unlines ls)
    (hpart : crlf.splitLine d.rx.data = none) :
    Fits d cs ↔ ∀ pre c post, cs = pre ++ c :: post →
      (crlf.unfinished (d.rx.data ++ pre.flatten)).length + c.length ≤ rxBuf := by
  induction cs generalizing d ls os with
  | nil => simp [Fits, Driver.feed]
  | cons c cs ih =>
    rcases Nat.lt_or_ge rxBuf (d.rx.len + c.length) with hfull | hfit
    · -- the first chunk overflows
      refine iff_of_false ?_ fun h => ?_
      · rintro ⟨pss, d', hd'⟩
        obtain ⟨d₁, hd₁⟩ := Driver.feed_overflow hfull cs
        cases hd₁.symm.trans hd'
      · have := h [] c cs rfl
        rw [List.flatten_nil, List.append_nil, crlf.unfinished_of_splitLine_eq_none hpart] at this
        unfold HVec.len at hfull
        omega
    -- the lines that the first chunk completes are drained, the next one has begun
    · obtain ⟨done, todo, part, rfl, hpre, hrest, hpart'⟩ :=
        crlf.exists_split_of_unlines_append hacc.not_mem
          (show (d.rx.data ++ c) ++ cs.flatten = _ by simpa using hcs)
      obtain ⟨m₁, os₁, os₂, rfl, hacc₁, hacc₂⟩ := hacc.of_append
      have hdone : ∀ l ∈ done, crlf.first ∉ l := hacc₁.not_mem
      have hdrain :
          driverMachine.drain d.mode (d.received c hfit).rx.data = .ok (os₁, m₁, part) := by
        rw [show (d.received c hfit).rx.data = _ from hpre]
        exact LineMachine.drain_accepts hacc₁ hpart'
      obtain ⟨d₁, hd₁, rfl, rfl, hsame⟩ := Driver.drain_of_sent (d := d.received c hfit) htx hdrain
      have hrec := ih (hsame.tx_le htx) hacc₂ hrest hpart'
      have hfits : Fits d (c :: cs) ↔ Fits d₁ cs := by
        unfold Fits
        rw [Driver.feed_cons hfit hd₁]
        rcases d₁.feed cs with f | ⟨e | pss, d₂⟩ <;> simp [Except.map]
      rw [hfits, hrec]
      constructor
      · rintro h (_ | ⟨c', pre⟩) c₁ post heq
        · obtain ⟨rfl, rfl⟩ := List.cons.inj heq
          rw [List.flatten_nil, List.append_nil, crlf.unfinished_of_splitLine_eq_none hpart]
          exact hfit
        · obtain ⟨rfl, rfl⟩ := List.cons.inj heq
          rw [List.flatten_cons, ← List.append_assoc, hpre, List.append_assoc,
            crlf.unfinished_unlines_append hdone]
          exact h pre c₁ post rfl
      · intro h pre c₁ post heq
        have := h (c :: pre) c₁ post (by rw [heq, List.cons_append])
        rwa [List.flatten_cons, ← List.append_assoc, hpre, List.append_assoc,
          crlf.unfinished_unlines_append hdone] at this

/-- A session of a fresh driver on a stream of events fits exactly when no read is longer than the
room beside the unfinished line. -/
theorem capacity_iff {ls : List (List UInt8)} (hls : ∀ l ∈ ls, IsConforming l)
    {cs : List (List UInt8)} (hcs : cs.flatten = crlf.unlines ls) :
    Fits .new cs ↔ ∀ pre c post, cs = pre ++ c :: post →
      (crlf.unfinished pre.flatten).length + c.length ≤ rxBuf := by
  obtain ⟨es, hes⟩ := exists_events hls
  have hacc := accepts_events (m := .idle) rfl hes fun l hl => (hls l hl).exists_event.2
  exact feed_fits_iff (d := .new) (Nat.le_refl _) hacc hcs rfl

end

section

attribute [local instance] Target.host

/-- `+READY` in two reads fits. -/
theorem capacity_ready : Fits .new [utf8 "+REA", utf8 "DY" ++ [cr, lf]] := by
  have hcs : [utf8 "+REA", utf8 "DY" ++ [cr, lf]].flatten = crlf.unlines [utf8 "+READY"] := rfl
  apply (capacity_iff (by simp [IsConforming]) hcs).mpr
  intro pre c post heq
  have hlen := congrArg (fun cs : List (List UInt8) => cs.flatten.length) heq
  -- the whole stream is eight bytes long
  have hpre := crlf.length_unfinished_le pre.flatten
  simp only [List.flatten_append, List.flatten_cons, List.length_append] at hlen
  have htotal : (utf8 "+REA").length + (utf8 "DY" ++ [cr, lf]).length = 8 := rfl
  simp only [List.flatten_nil, List.length_nil, List.length_append] at hlen htotal
  unfold rxBuf
  omega

/-- The longest message, 271 bytes with its terminator. -/
def longestLine : List UInt8 := rcvLine 65535 (List.replicate 240 65) (-32768) (-32768)

theorem isConforming_longestLine : IsConforming longestLine :=
  Or.inr ⟨_, _, _, _, by rw [List.length_replicate], fun h => absurd (List.eq_of_mem_replicate h)
    (by decide), rfl⟩

/-- Two of the longest messages in reads of 256, 14, 256 and 16 bytes do not fit: 270 bytes are
unfinished when the third read arrives. -/
theorem capacity_exceeded : ¬ ∀ ls cs, (∀ l ∈ ls, IsConforming l) → cs.flatten = crlf.unlines ls →
    (∀ c ∈ cs, 1 ≤ c.length ∧ c.length ≤ 256) → Fits .new cs := by
  intro h
  have hlines : ∀ l ∈ [longestLine, longestLine], IsConforming l := by
    simp [isConforming_longestLine]
  let stream := crlf.unlines [longestLine, longestLine]
  obtain ⟨pss, d', hd'⟩ := h [longestLine, longestLine]
    [stream.take 256, (stream.drop 256).take 14, (stream.drop 270).take 256, stream.drop 526] hlines
    (by decide +kernel) (by decide +kernel)
  have hfull : (Driver.feed .new [stream.take 256, (stream.drop 256).take 14,
      (stream.drop 270).take 256, stream.drop 526]).map (fun q => q.1.toBool) = .ok false := by
    decide +kernel
  rw [hd'] at hfull
  cases hfull

end

end Rylr998
