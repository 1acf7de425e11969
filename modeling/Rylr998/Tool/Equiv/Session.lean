import Rylr998.System.Exchange
import Rylr998.Tool.Commands

/-!
# The tool and the radio

The environment of the tool is a driver and a radio: they make the calls of the tool and what the
radio does by itself (`environment`). A command method that is called while nothing is in flight is
answered by the radio in one step, or refused by the driver, or left in flight (`command_triple`).
Once a command is in flight every further one fails (`command_triple_stuck`).
-/

namespace Rylr998.Tool

open Interact Labelled

/-- The method has a result for each response that its command expects. -/
theorem CommandMethod.want_ne_none {α : Type} (m : CommandMethod α) {r : Response}
    (h : m.command.Expects r) : m.want r ≠ none := by
  have hanswered := h.1
  cases m <;> cases r <;> first | (cases hanswered; done) | exact Option.some_ne_none _

section

variable [Target] {σ : Type} {dev : Device σ} {α : Type}

/-- The driver and the radio of a running tool, while nothing is lost. -/
def environment (dev : Device σ) : Interact.Setting Process (World × σ) Label Call where
  trace := Process.calls
  step := dev.Cleanly
  shows := Label.call?

/-- Nothing is in flight, and `R` is true of what is printed and of the state of the radio. -/
def Ready (R : List Line → σ → Prop) (p : Process) (e : World × σ) : Prop :=
  p.radio.Settled e.1 ∧ R p.lines e.2

/-- The tool starts, with a radio in the state `s₀`. -/
theorem ready_start (s₀ : σ) (port : Std.Port) (stdin : Except ErrorKind (List UInt8))
    (handler : Except String Unit) (stops : List Bool) :
    Ready (fun lines s => lines = [] ∧ s = s₀) (.start port stdin handler stops)
      (World.init, s₀) :=
  ⟨⟨World.inv_init, rfl, rfl⟩, rfl, rfl⟩

/-- A command is in flight. -/
def Stuck (p : Process) : Prop := p.radio.driver.state ≠ .idle

theorem stable_ready (R : List Line → σ → Prop) : Stable (environment dev) (Ready R) := by
  constructor
  rintro p ⟨w, s⟩ ⟨w', s'⟩ ⟨hsettled, hR⟩ hseen
  obtain ⟨hsettled', rfl⟩ := hsettled.silent (hseen.mono And.left)
  exact ⟨hsettled', hR⟩

/-- How the call of a command method ends. -/
inductive Commanded (dev : Device σ) (m : CommandMethod α) (R : List Line → σ → Prop) :
    Except Error α → Process → World × σ → Prop
  /-- The radio has answered. -/
  | answered {r : Response} {out : Except Std.Error α} {p : Process} {e : World × σ} :
    m.want r = some out → Ready (fun lines s' => ∃ s, R lines s ∧ dev s (m.command, r) s') p e →
    Commanded dev m R (out.mapError .std) p e
  /-- The driver has refused the command. -/
  | refused {p : Process} {e : World × σ} : Ready R p e →
    Commanded dev m R (.error (.std (.core .txOverflow))) p e
  /-- The command is in flight. -/
  | stuck {err : Std.Error} {p : Process} {e : World × σ} : Stuck p →
    Commanded dev m R (.error (.std err)) p e

theorem returns_command_iff {m : CommandMethod α} {p p' : Process} {r : Except Error α} :
    Returns (command m) p r p' ↔ ∃ out radio,
      p.radio.command m.command m.timeout m.want = .ok (out, radio) ∧ r = out.mapError .std ∧
      p' = { p with radio, calls := p.calls ++ m.calls p.radio } := by
  rw [← m.call_eq]
  constructor
  · intro h
    obtain ⟨⟨out, radio⟩, hcall, h⟩ := Except.bind_eq_ok.mp h
    cases h
    exact ⟨out, radio, hcall, rfl, rfl⟩
  · rintro ⟨out, radio, hcall, rfl, rfl⟩
    exact Except.bind_eq_ok.mpr ⟨_, hcall, rfl⟩

theorem returns_nextEvent_iff {timeout : Nat} {p p' : Process} {r : Except Error Event} :
    Returns (nextEvent timeout) p r p' ↔ ∃ out radio,
      p.radio.nextEvent timeout = .ok (out, radio) ∧ r = out.mapError .std ∧
      p' = { p with radio, calls := p.calls ++ p.radio.nextEventCalls timeout } := by
  constructor
  · intro h
    obtain ⟨⟨out, radio⟩, hcall, h⟩ := Except.bind_eq_ok.mp h
    cases h
    exact ⟨out, radio, hcall, rfl, rfl⟩
  · rintro ⟨out, radio, hcall, rfl, rfl⟩
    exact Except.bind_eq_ok.mpr ⟨_, hcall, rfl⟩

/-- A command method, called while nothing is in flight. -/
theorem command_triple (m : CommandMethod α) (R : List Line → σ → Prop) :
    Triple (environment dev) (Ready R) (command m) (Commanded dev m R) where
  grows := by
    intro p r p' h
    obtain ⟨out, radio, -, -, rfl⟩ := returns_command_iff.mp h
    exact List.prefix_append _ _
  post := by
    rintro p r p' ⟨w, s⟩ ⟨w', s'⟩ actions ⟨hsettled, hR⟩ h hactions hseen
    obtain ⟨out, radio, hcommand, rfl, rfl⟩ := returns_command_iff.mp h
    obtain rfl := (List.append_cancel_left hactions).symm
    cases Std.Radio.exchange_spec hsettled (fun r => m.want_ne_none) hcommand
      (hseen.mono And.left) with
    | answered hsettled' hdev hwant => exact .answered hwant ⟨hsettled', s, hR, hdev⟩
    | refused hsettled' hs =>
      subst hs
      exact .refused ⟨hsettled', hR⟩
    | gaveUp hne => exact .stuck hne

/-- A part of the tool that has returned: with a value of which `Q` is true, or with an error of the
radio. -/
inductive Returned {ξ : Type} (Q : α → Process → ξ → Prop) : Except Error α → Process → ξ → Prop
  | ok {a : α} {p : Process} {e : ξ} : Q a p e → Returned Q (.ok a) p e
  | failed {err : Std.Error} {p : Process} {e : ξ} : Returned Q (.error (.std err)) p e

omit [Target] in
theorem returned_ok_iff {ξ : Type} {Q : α → Process → ξ → Prop} {a : α} {p : Process} {e : ξ} :
    Returned Q (.ok a) p e ↔ Q a p e :=
  ⟨fun | .ok h => h, .ok⟩

/-- Go on after a part that has returned with a value. -/
theorem Returned.bind {β : Type} {P : Process → World × σ → Prop} {x : ToolM α} {f : α → ToolM β}
    {Q : α → Process → World × σ → Prop} {R : Except Error β → Process → World × σ → Prop}
    (hx : Triple (environment dev) P x (Returned Q))
    (hf : ∀ a, Triple (environment dev) (Q a) (f a) R)
    (hfailed : ∀ {err p e}, R (.error (.std err)) p e) :
    Triple (environment dev) P (x >>= f) R := by
  refine hx.bind (fun a => (hf a).weaken returned_ok_iff.mp id) ?_
  intro err p e h
  cases h
  exact hfailed

/-- A command method that returns a value has been answered with it. -/
theorem command_triple_ok (m : CommandMethod α) (R : List Line → σ → Prop) :
    Triple (environment dev) (Ready R) (command m) (Returned fun a => Ready fun lines s' =>
      ∃ s r, R lines s ∧ dev s (m.command, r) s' ∧ m.want r = some (.ok a)) := by
  refine (command_triple m R).weaken id ?_
  intro r p e h
  cases h with
  | @answered r out p e hwant h =>
    cases out with
    | ok a =>
      obtain ⟨hsettled, s, hR, hdev⟩ := h
      exact .ok ⟨hsettled, s, r, hR, hdev, hwant⟩
    | error err => exact .failed
  | refused | stuck => exact .failed

theorem printLine_triple {Q : Except Error Unit → Process → World × σ → Prop} (line : Line)
    (hQ : ∀ r, Stable (environment dev) (Q r)) : Triple (environment dev)
      (fun p e => Q (.ok ()) { p with lines := p.lines ++ [line] } e) (printLine line) Q :=
  .modify hQ fun _ => rfl

theorem printLine_bind {P : Process → World × σ → Prop} {y : ToolM α}
    {Q : Except Error α → Process → World × σ → Prop} (line : Line)
    (hP : Stable (environment dev) P) (hy : Triple (environment dev) P y Q) :
    Triple (environment dev) (fun p e => P { p with lines := p.lines ++ [line] } e)
      (printLine line >>= fun _ => y) Q := by
  have hstable (r : Except Error Unit) :
      Stable (environment dev) fun p e => r = .ok () ∧ P p e :=
    ⟨fun h hseen => ⟨h.1, hP.keeps h.2 hseen⟩⟩
  exact ((printLine_triple line hstable).weaken (fun h => ⟨rfl, h⟩) id).bind
    (fun _ => hy.weaken And.right id) fun h => nomatch h.1

/-- A command method, called while another command is in flight. -/
theorem command_triple_stuck (m : CommandMethod α) :
    Triple (environment dev) (fun p _ => Stuck p) (command m)
      fun r p _ => (∃ err, r = .error (.std err)) ∧ Stuck p where
  grows := (@command_triple _ _ dev _ m fun _ _ => True).grows
  post := by
    intro p r p' e e' actions hp h _ _
    obtain ⟨out, radio, hcommand, rfl, rfl⟩ := returns_command_iff.mp h
    rw [Std.Radio.command_eq, submitThenPump_refused (Driver.submit_busy _ hp)] at hcommand
    cases hcommand
    exact ⟨⟨_, rfl⟩, hp⟩

end

end Rylr998.Tool
