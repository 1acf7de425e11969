import Rylr998.Core.Driver
import Rylr998.Lib.LineMachine

/-!
# The line machine of the driver

What `Driver::poll` is for once there is nothing to send: it looks at the first complete line it
has received and passes it on as an event, takes it as the reply to the command in flight, drops
it, or leaves it alone. `react` says which, from the line and the `Mode` of the driver only, and
`driverMachine` is the machine that reads a byte stream that way. The byte buffers do not occur
here.
-/

namespace Rylr998

open Framing

/-- The terminator of the lines. -/
def crlf : Terminator UInt8 := ⟨cr, lf⟩

@[simp] theorem crlf_first : crlf.first = cr := rfl

@[simp] theorem crlf_second : crlf.second = lf := rfl

/-- The part of the driver's state that decides what becomes of a line. -/
@[ext] structure Mode where
  state : State
  awaitingReadyAsOk : Bool
  deriving DecidableEq

/-- What a line yields. -/
inductive Output where
  | response (r : Response)
  | event (e : Event)
  deriving DecidableEq

/-- What `poll` returns for an output. -/
def Output.poll : Output → Poll
  | .response r => .response r
  | .event e => .event e

/-- What `poll` returns when it has looked at the lines. -/
def pollOf : Option Output → Poll
  | some o => o.poll
  | none => .idle

/-- The driver takes the line for an event. -/
def isEventLine (line : List UInt8) : Bool :=
  startsWith line (utf8 "+RCV") || startsWith line (utf8 "+READY")

/-- The mode in which no command is in flight. -/
def Mode.idle : Mode := ⟨.idle, false⟩

/-- The line is the reply that the driver waits for. -/
def Mode.matches (m : Mode) (line : List UInt8) : Bool :=
  match m.state with
  | .awaiting kind => Driver.responseMatches kind line
  | _ => false

/-- The output for a matched reply. -/
def replyOutput (line : List UInt8) : Option Output :=
  match parseResponse line with
  | .ok r => some (.response r)
  | .error _ => none

/-- What becomes of an event line. -/
def reactEvent [Target] (m : Mode) (line : List UInt8) : Reaction Mode Output Fault :=
  match (parseEvent line).run with
  | .error p => .fault (.parser p)
  | .ok (.ok e) => .take (some (.event e)) m
  | .ok (.error _) => .take none m

/-- What becomes of a line. -/
def react [Target] (m : Mode) (line : List UInt8) : Reaction Mode Output Fault :=
  if lineBufLength < line.length then
    .fault (.buffers .outOfBounds)
  else if m.awaitingReadyAsOk && startsWith line (utf8 "+RESET") then
    .skip
  else if isEventLine line then
    if m.awaitingReadyAsOk && line = utf8 "+READY" then .take (some (.response .ok)) .idle
    else reactEvent m line
  else if m.matches line then
    .take (replyOutput line) .idle
  else
    .keep

/-- The machine that `poll` runs on the received bytes. -/
def driverMachine [Target] : LineMachine UInt8 Mode Output Fault where
  term := crlf
  react := react

@[simp] theorem driverMachine_term [Target] : driverMachine.term = crlf := rfl

@[simp] theorem driverMachine_react [Target] : driverMachine.react = react := rfl

/-! ### The reactions, one by one -/

theorem Mode.matches_iff {m : Mode} {line : List UInt8} : m.matches line = true ↔
    ∃ kind, m.state = .awaiting kind ∧ Driver.responseMatches kind line = true := by
  unfold Mode.matches
  split
  · next kind h => simp [h]
  · next h => simpa using fun kind hk => absurd hk (h kind)

section React

variable [Target] {m : Mode} {line : List UInt8}

theorem react_of_long (h : lineBufLength < line.length) :
    react m line = .fault (.buffers .outOfBounds) := if_pos h

theorem react_of_reset (hlen : line.length ≤ lineBufLength)
    (h : (m.awaitingReadyAsOk && startsWith line (utf8 "+RESET")) = true) :
    react m line = .skip := by
  rw [react, if_neg (by omega), if_pos h]

theorem react_of_event (hlen : line.length ≤ lineBufLength)
    (hreset : ¬ (m.awaitingReadyAsOk && startsWith line (utf8 "+RESET")) = true)
    (h : isEventLine line = true) :
    react m line =
      if m.awaitingReadyAsOk && line = utf8 "+READY" then .take (some (.response .ok)) .idle
      else reactEvent m line := by
  rw [react, if_neg (by omega), if_neg hreset, if_pos h]

theorem react_of_matches (hlen : line.length ≤ lineBufLength)
    (hreset : ¬ (m.awaitingReadyAsOk && startsWith line (utf8 "+RESET")) = true)
    (hevent : ¬ isEventLine line = true) (h : m.matches line = true) :
    react m line = .take (replyOutput line) .idle := by
  rw [react, if_neg (by omega), if_neg hreset, if_neg hevent, if_pos h]

theorem react_of_not_matches (hlen : line.length ≤ lineBufLength)
    (hreset : ¬ (m.awaitingReadyAsOk && startsWith line (utf8 "+RESET")) = true)
    (hevent : ¬ isEventLine line = true) (h : ¬ m.matches line = true) : react m line = .keep := by
  rw [react, if_neg (by omega), if_neg hreset, if_neg hevent, if_neg h]

/-- What becomes of a line, case by case. -/
inductive Reacts (m : Mode) (line : List UInt8) : Reaction Mode Output Fault → Prop
  | long : lineBufLength < line.length → Reacts m line (.fault (.buffers .outOfBounds))
  | reset : line.length ≤ lineBufLength → m.awaitingReadyAsOk = true →
    startsWith line (utf8 "+RESET") = true → Reacts m line .skip
  | ready : m.awaitingReadyAsOk = true → line = utf8 "+READY" →
    Reacts m line (.take (some (.response .ok)) .idle)
  | event (e : Event) : line.length ≤ lineBufLength → isEventLine line = true →
    ¬ (m.awaitingReadyAsOk = true ∧ line = utf8 "+READY") → (parseEvent line).run = .ok (.ok e) →
    Reacts m line (.take (some (.event e)) m)
  | rejected (e : Error) : line.length ≤ lineBufLength → isEventLine line = true →
    (parseEvent line).run = .ok (.error e) → Reacts m line (.take none m)
  | crash (p : Panic) : isEventLine line = true → (parseEvent line).run = .error p →
    Reacts m line (.fault (.parser p))
  | reply (kind : AwaitKind) : line.length ≤ lineBufLength → m.state = .awaiting kind →
    isEventLine line = false → Driver.responseMatches kind line = true →
    Reacts m line (.take (replyOutput line) .idle)
  | keep : line.length ≤ lineBufLength →
    ¬ (m.awaitingReadyAsOk = true ∧ startsWith line (utf8 "+RESET") = true) →
    isEventLine line = false → m.matches line = false → Reacts m line .keep

theorem react_spec (m : Mode) (line : List UInt8) : Reacts m line (react m line) := by
  unfold react
  split_ifs with hlong hreset hevent hready hmatches
  · exact .long hlong
  · rw [Bool.and_eq_true] at hreset
    exact .reset (by omega) hreset.1 hreset.2
  · rw [Bool.and_eq_true, decide_eq_true_eq] at hready
    exact .ready hready.1 hready.2
  · rw [Bool.and_eq_true, decide_eq_true_eq] at hready
    unfold reactEvent
    rcases hp : (parseEvent line).run with p | e | e
    · exact .crash p hevent hp
    · exact .rejected e (by omega) hevent hp
    · exact .event e (by omega) hevent hready hp
  · obtain ⟨kind, hstate, hm⟩ := Mode.matches_iff.mp hmatches
    exact .reply kind (by omega) hstate (by simpa using hevent) hm
  · rw [Bool.and_eq_true] at hreset
    exact .keep (by omega) hreset (by simpa using hevent) (by simpa using hmatches)

/-- A line that is taken leaves the mode as it is or makes it idle. -/
theorem react_take_mode {o : Option Output} {m' : Mode} (h : react m line = .take o m') :
    m' = m ∨ m' = .idle := by
  have hs := react_spec m line
  rw [h] at hs
  cases hs with
  | event | rejected => exact Or.inl rfl
  | ready | reply => exact Or.inr rfl

/-- A line that makes the driver idle, or yields a response, answers a command in flight. -/
theorem inFlight_of_react {m' : Mode} {o : Option Output}
    (h : react m line = .take o m') (ho : m' ≠ m ∨ ∃ r, o = some (.response r)) :
    m' = .idle ∧ (m.awaitingReadyAsOk = true ∨ ∃ kind, m.state = .awaiting kind) := by
  have hs := react_spec m line
  rw [h] at hs
  cases hs with
  | ready hflag => exact ⟨rfl, Or.inl hflag⟩
  | event | rejected =>
    rcases ho with hne | ⟨r, hr⟩
    · exact absurd rfl hne
    · cases hr
  | reply kind _ hstate => exact ⟨rfl, Or.inr ⟨kind, hstate⟩⟩

end React

/-! ### The steps on a complete line -/

section Next

variable [Target] {m : Mode} {l : List UInt8}

/-- The skipped lines are `+RESET` lines during a factory reset. -/
theorem skips_iff {ls : List (List UInt8)} :
    driverMachine.Skips m ls ↔ ∀ s ∈ ls, cr ∉ s ∧ s.length ≤ lineBufLength ∧
      m.awaitingReadyAsOk = true ∧ startsWith s (utf8 "+RESET") = true := by
  refine forall₂_congr fun s _ => and_congr_right fun _ => ⟨fun h => ?_, ?_⟩
  · have hs := react_spec m s
    rw [show react m s = .skip from h] at hs
    cases hs with
    | reset hlen hflag hreset => exact ⟨hlen, hflag, hreset⟩
  · rintro ⟨hlen, hflag, hreset⟩
    exact react_of_reset hlen (by rw [hflag, hreset]; rfl)

theorem skips_eq_nil {ls : List (List UInt8)} (hflag : m.awaitingReadyAsOk = false)
    (h : driverMachine.Skips m ls) : ls = [] := by
  cases ls with
  | nil => rfl
  | cons l ls =>
    have := (skips_iff.mp h l List.mem_cons_self).2.2.1
    rw [hflag] at this
    cases this

theorem next_of_skip (hl : cr ∉ l) (h : react m l = .skip) (r : List UInt8) :
    driverMachine.next m (l ++ cr :: lf :: r) = driverMachine.next m r :=
  LineMachine.next_skip (M := driverMachine) hl h

theorem next_of_take {m' : Mode} {o : Option Output} (hl : cr ∉ l) (h : react m l = .take o m')
    (r : List UInt8) : driverMachine.next m (l ++ cr :: lf :: r) = .ok (o, m', r) :=
  LineMachine.next_take (M := driverMachine) hl h

theorem next_of_fault {f : Fault} (hl : cr ∉ l) (h : react m l = .fault f) (r : List UInt8) :
    driverMachine.next m (l ++ cr :: lf :: r) = .error f :=
  LineMachine.next_fault (M := driverMachine) hl h

theorem next_of_keep (hl : cr ∉ l) (h : react m l = .keep) (r : List UInt8) :
    driverMachine.next m (l ++ cr :: lf :: r) = .ok (none, m, l ++ cr :: lf :: r) :=
  LineMachine.next_stuck (M := driverMachine) (Or.inr ⟨l, r, crlf.splitLine_line hl r, h⟩)

/-- A step leaves the mode as it is or makes it idle. -/
theorem next_mode {m' : Mode} {o : Option Output} {buf buf' : List UInt8}
    (h : driverMachine.next m buf = .ok (o, m', buf')) : m' = m ∨ m' = .idle := by
  obtain ⟨skipped, -, ⟨-, rfl, -⟩ | ⟨l, -, hl, -⟩⟩ := LineMachine.next_inv h
  · exact Or.inl rfl
  · exact react_take_mode hl

end Next

/-! ### Outputs -/

theorem pollOf_injective : Function.Injective pollOf := by
  rintro (_ | r | e) (_ | r' | e') h <;> cases h <;> rfl

@[simp] theorem pollOf_some (o : Output) : pollOf (some o) = o.poll := rfl

@[simp] theorem pollOf_none : pollOf none = .idle := rfl

@[simp] theorem pollOf_ne_needTx (o : Option Output) (bs : List UInt8) : pollOf o ≠ .needTx bs := by
  rintro h
  rcases o with _ | r | e <;> cases h

end Rylr998
