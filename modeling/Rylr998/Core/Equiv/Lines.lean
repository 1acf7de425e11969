import Rylr998.Core.Machine
import Rylr998.Core.Equiv.Decode

/-!
# What becomes of a well-formed line

The reaction of the driver to the lines of the radio's grammar: an `IsRcv` line is always taken as
its event (`react_of_isRcv`), `+READY` is an event or resolves a factory reset, and an `IsReply`
line is taken when a reply of its kind is awaited (`react_of_isReply`). `rcvLine` is the `+RCV`
line with canonical numerals.
-/

namespace Rylr998

open Framing

theorem startsWith_reset_of_isEventLine {line : List UInt8} (h : isEventLine line = true) :
    startsWith line (utf8 "+RESET") = false := by
  rw [isEventLine, Bool.or_eq_true] at h
  rcases h with h | h
  · obtain ⟨t, rfl⟩ := startsWith_iff.mp h
    exact startsWith_append_of_ne (by decide)
  · obtain ⟨t, rfl⟩ := startsWith_iff.mp h
    exact startsWith_append_of_ne (by decide)

section Events

variable [Target] {m : Mode} {line : List UInt8} {e : Event}

theorem IsRcv.exists_eq (h : IsRcv line e) : ∃ t, line = utf8 "+RCV=" ++ t := by
  obtain ⟨a, l, data, r, s, _, _, _, _, rfl, -⟩ := h
  exact ⟨a ++ [comma] ++ l ++ [comma] ++ data ++ [comma] ++ r ++ [comma] ++ s, by simp⟩

theorem isEventLine_of_isRcv (h : IsRcv line e) : isEventLine line = true := by
  obtain ⟨t, rfl⟩ := h.exists_eq
  rw [isEventLine, show utf8 "+RCV=" ++ t = utf8 "+RCV" ++ ([61] ++ t) from rfl, startsWith_append]
  rfl

theorem length_le_usizeMax (hlen : line.length ≤ lineBufLength) : line.length ≤ usizeMax := by
  have := usizeMax_ge
  unfold lineBufLength at hlen
  omega

/-- A well-formed `+RCV` line is taken as its event, whatever the mode. -/
theorem react_of_isRcv (h : IsRcv line e) (hlen : line.length ≤ lineBufLength) :
    react m line = .take (some (.event e)) m := by
  have hparse : (parseEvent line).run = .ok (.ok e) :=
    parseEvent_of_isRcv h (length_le_usizeMax hlen)
  obtain ⟨t, ht⟩ := h.exists_eq
  have hreset : startsWith line (utf8 "+RESET") = false := ht ▸ startsWith_append_of_ne (by decide)
  have hready : line ≠ utf8 "+READY" := ht ▸ append_ne_of_ne (by decide)
  rw [react_of_event hlen (by simp [hreset]) (isEventLine_of_isRcv h), if_neg (by simp [hready]),
    reactEvent, hparse]

theorem react_ready_of_flag (h : m.awaitingReadyAsOk = true) :
    react m (utf8 "+READY") = .take (some (.response .ok)) .idle := by
  rw [react_of_event (by decide) (by rw [h]; decide) (by decide), if_pos (by rw [h]; decide)]

theorem react_ready_of_not_flag (h : m.awaitingReadyAsOk = false) :
    react m (utf8 "+READY") = .take (some (.event .ready)) m := by
  rw [react_of_event (by decide) (by rw [h]; decide) (by decide), if_neg (by rw [h]; decide)]
  rfl

/-- Outside a factory reset every well-formed event line is taken as its event. -/
theorem react_of_isEvent (h : IsEvent line e) (hlen : line.length ≤ lineBufLength)
    (hflag : m.awaitingReadyAsOk = false) : react m line = .take (some (.event e)) m := by
  rcases h with h | ⟨rfl, rfl⟩
  · exact react_of_isRcv h hlen
  · exact react_ready_of_not_flag hflag

theorem parseEvent_of_isEvent (h : IsEvent line e) (hlen : line.length ≤ lineBufLength) :
    (parseEvent line).run = .ok (.ok e) := by
  rcases h with h | ⟨rfl, rfl⟩
  · exact parseEvent_of_isRcv h (length_le_usizeMax hlen)
  · rfl

/-- Behind lines that are skipped, `rx` begins with a well-formed event that the mode passes on. -/
def EventFirst (m : Mode) (rx : List UInt8) : Prop :=
  ∃ skipped line rest e, driverMachine.Skips m skipped ∧ cr ∉ line ∧
    line.length ≤ lineBufLength ∧ IsEvent line e ∧
    ¬ (m.awaitingReadyAsOk = true ∧ line = utf8 "+READY") ∧
    rx = crlf.unlines skipped ++ (line ++ cr :: lf :: rest)

/-- A line is taken as an event exactly when it is a well-formed one and no awaited `+READY`. -/
theorem react_event_iff {m' : Mode} : react m line = .take (some (.event e)) m' ↔
    line.length ≤ lineBufLength ∧ IsEvent line e ∧
      ¬ (m.awaitingReadyAsOk = true ∧ line = utf8 "+READY") ∧ m' = m := by
  constructor
  · intro h
    have hs := react_spec m line
    rw [h] at hs
    generalize ho : some (Output.event e) = o at hs
    cases hs with
    | ready | rejected => cases ho
    | event e' hlen _ hready hparse =>
      cases ho
      exact ⟨hlen, isEvent_of_parseEvent hparse, hready, rfl⟩
    | reply =>
      unfold replyOutput at ho
      split at ho <;> cases ho
  · rintro ⟨hlen, hevent, hready, rfl⟩
    rcases hevent with h | ⟨rfl, rfl⟩
    · exact react_of_isRcv h hlen
    · apply react_ready_of_not_flag
      simpa using hready

theorem eventFirst_iff {rx : List UInt8} : EventFirst m rx ↔
    ∃ e m' rest, driverMachine.next m rx = .ok (some (.event e), m', rest) := by
  constructor
  · rintro ⟨skipped, line, rest, e, hskip, hcr, hlen, hevent, hready, rfl⟩
    have hreact := react_event_iff.mpr ⟨hlen, hevent, hready, rfl⟩
    exact ⟨e, m, rest, (LineMachine.next_skips hskip _).trans (next_of_take hcr hreact rest)⟩
  · rintro ⟨e, m', rest, hnext⟩
    obtain ⟨skipped, hskip, ⟨ho, -⟩ | ⟨line, hcr, hreact, hrx⟩⟩ := LineMachine.next_inv hnext
    · cases ho
    obtain ⟨hlen, hevent, hready, -⟩ := react_event_iff.mp hreact
    exact ⟨skipped, line, rest, e, hskip, hcr, hlen, hevent, hready, hrx⟩

end Events

section Replies

variable {m : Mode} {kind : AwaitKind} {line : List UInt8} {r : Response}

theorem IsReply.startsWith_eq_false (h : IsReply kind line r) {p : List UInt8}
    (hp : p = utf8 "+RCV" ∨ p = utf8 "+READY" ∨ p = utf8 "+RESET") : startsWith line p = false := by
  cases h with
  | ok => rcases hp with rfl | rfl | rfl <;> rfl
  | err => rcases hp with rfl | rfl | rfl <;> exact startsWith_append_of_ne (by decide)
  | @query key =>
    rcases hp with rfl | rfl | rfl <;> exact startsWith_append_of_ne (by cases key <;> decide)

theorem isEventLine_of_isReply (h : IsReply kind line r) : isEventLine line = false := by
  rw [isEventLine, h.startsWith_eq_false (by simp), h.startsWith_eq_false (by simp)]
  rfl

theorem replyOutput_of_isReply {kind : AwaitKind} {line : List UInt8} {r : Response}
    (h : IsReply kind line r) : replyOutput line = some (.response r) := by
  rw [replyOutput, parseResponse_of_isReply h]

theorem replyOutput_eq_none {kind : AwaitKind} {line : List UInt8}
    (hm : Driver.responseMatches kind line = true) (h : ¬ ∃ r, IsReply kind line r) :
    replyOutput line = none := by
  unfold replyOutput
  cases hp : parseResponse line with
  | ok r => exact absurd ⟨r, isReply_of_parseResponse hm hp⟩ h
  | error e => rfl

/-- The reply that is awaited is taken as the response. -/
theorem react_of_isReply [Target] (h : IsReply kind line r) (hlen : line.length ≤ lineBufLength)
    (hstate : m.state = .awaiting kind) :
    react m line = .take (some (.response r)) .idle := by
  rw [react_of_matches hlen (by rw [h.startsWith_eq_false (by simp)]; simp)
    (by simp [isEventLine_of_isReply h])
    (Mode.matches_iff.mpr ⟨kind, hstate, responseMatches_of_isReply h⟩), replyOutput,
    parseResponse_of_isReply h]

/-- A reply is left in place when none is awaited. -/
theorem react_of_isReply_of_not [Target] (h : IsReply kind line r)
    (hlen : line.length ≤ lineBufLength) (hstate : ∀ k, m.state ≠ .awaiting k) :
    react m line = .keep := by
  rw [react_of_not_matches hlen (by rw [h.startsWith_eq_false (by simp)]; simp)
    (by simp [isEventLine_of_isReply h])]
  rw [Mode.matches_iff]
  rintro ⟨k, hk, -⟩
  exact hstate k hk

/-- A response to a line is the `+READY` of a factory reset, or the line is a well-formed reply of
the kind that is awaited. -/
theorem response_of_react [Target] {m' : Mode} (h : react m line = .take (some (.response r)) m') :
    m.awaitingReadyAsOk = true ∧ r = .ok ∨
      ∃ kind, m.state = .awaiting kind ∧ IsReply kind line r := by
  have hs := react_spec m line
  rw [h] at hs
  generalize ho : some (Output.response r) = o at hs
  cases hs with
  | ready hready =>
    cases ho
    exact Or.inl ⟨hready, rfl⟩
  | reply kind _ hkind _ hmatch =>
    unfold replyOutput at ho
    split at ho
    · next r' hr =>
      cases ho
      exact Or.inr ⟨kind, hkind, isReply_of_parseResponse hmatch hr⟩
    · cases ho
  | event | rejected => cases ho

end Replies

/-! ### The canonical `+RCV` line -/

/-- `+RCV=<from>,<len>,<data>,<rssi>,<snr>` with canonical numerals. -/
def rcvLine (fromAddr : UInt16) (data : List UInt8) (rssi snr : Int16) : List UInt8 :=
  utf8 "+RCV=" ++ numeral fromAddr ++ [comma] ++ Decimal.text data.length ++ [comma] ++ data ++
    [comma] ++ numeral rssi ++ [comma] ++ numeral snr

section Canonical

variable (fromAddr : UInt16) (data : List UInt8) (rssi snr : Int16)

theorem denotes_text_usize [Target] {n : Nat} (h : n ≤ usizeMax) :
    Denotes (Decimal.text n) (⟨n, h⟩ : Usize) := by
  have := denotes_numeral (⟨n, h⟩ : Usize)
  rwa [numeral_of_nonneg (n := n) rfl] at this

theorem isRcv_rcvLine [Target] (h : data.length ≤ usizeMax) :
    IsRcv (rcvLine fromAddr data rssi snr) (.recv fromAddr data rssi snr) :=
  ⟨_, _, data, _, _, fromAddr, ⟨data.length, h⟩, rssi, snr, rfl, denotes_numeral _,
    denotes_text_usize h, rfl, denotes_numeral _, denotes_numeral _, rfl⟩

/-- Only the payload can bring a `\r` into the line. -/
theorem cr_mem_rcvLine : cr ∈ rcvLine fromAddr data rssi snr ↔ cr ∈ data := by
  have hcr {text : List UInt8} (h : ∀ b ∈ text, Decimal.isDigit b = true ∨ b = Decimal.plus ∨
      b = Decimal.minus) : cr ∉ text := fun hm => absurd (h cr hm) (by decide)
  have h₁ : cr ∉ numeral fromAddr := (denotes_numeral fromAddr).cr_not_mem
  have h₂ : cr ∉ Decimal.text data.length :=
    hcr fun b hb => Or.inl (Decimal.isDigit_of_mem_text hb)
  have h₃ : cr ∉ numeral rssi := (denotes_numeral rssi).cr_not_mem
  have h₄ : cr ∉ numeral snr := (denotes_numeral snr).cr_not_mem
  have h₅ : cr ∉ utf8 "+RCV=" := by decide
  have h₆ : cr ≠ comma := by decide
  simp [rcvLine, h₁, h₂, h₃, h₄, h₅, h₆]

/-- A payload of at most 240 bytes makes a line of at most 269 bytes. -/
theorem length_rcvLine_le (h : data.length ≤ 240) :
    (rcvLine fromAddr data rssi snr).length ≤ 269 := by
  have h₁ := length_numeral_uint16 fromAddr
  have h₂ : (Decimal.text data.length).length ≤ 3 := Decimal.length_text_le (by decide) (by omega)
  have h₃ := length_numeral_int16 rssi
  have h₄ := length_numeral_int16 snr
  have h₅ : (utf8 "+RCV=").length = 5 := rfl
  simp only [rcvLine, List.length_append, List.length_singleton]
  omega

end Canonical

end Rylr998
