import Rylr998.Host.Equiv.NextEvent
import Rylr998.System.InOrder
import Rylr998.Tool.Equiv.Runs

/-!
# The messages of the radio

A message that the radio sends is printed by `listen`, or it is in the queue of the blocking radio,
or it is still on its way: none is lost, none comes twice and none overtakes another, whatever the
tool does in a clean run (`no_message_lost`). When `listen` returns it has been stopped, and returns
without an error, unless the handler could not be installed; it has called `next_event` until then,
and has printed what that has returned (`listen_returns`).
-/

namespace Rylr998

open Labelled

namespace Tool

open Interact

/-- The tool, the system and the messages that the radio has sent. -/
def mailbox [Target] : Interact.Setting Process (World × List Event) Label Call where
  trace := Process.calls
  step := sync World.Moves Label.message? record
  shows := Label.call?

section

variable [Target]

/-- A message that has been sent has been printed, or it is in the queue or on its way. -/
structure Delivers (p : Process) (e : World × List Event) : Prop where
  inv : e.1.Inv
  driver : e.1.driver = p.radio.driver
  sent : ∃ os, e.1.Carries os ∧
    e.2 = p.lines.filterMap Line.event? ++ p.radio.events ++ os.filterMap Output.event?

/-- The calls of the driver bring the events that they return. -/
theorem Delivers.seen {p : Process} {e e' : World × List Event} {calls : List Call} {d : Driver}
    (h : Delivers p e) (hcalls : p.radio.driver.Calls calls d)
    (hseen : Seen mailbox.step mailbox.shows e calls e') :
    e'.1.Inv ∧ e'.1.driver = d ∧ ∃ os, e'.1.Carries os ∧
      e'.2 = p.lines.filterMap Line.event? ++
        (p.radio.events ++ calls.filterMap Call.event?) ++ os.filterMap Output.event? := by
  obtain ⟨w, sent⟩ := e
  obtain ⟨w', sent'⟩ := e'
  obtain ⟨ls, hpath, rfl⟩ := hseen
  have hworld : Path World.Moves w ls w' := hpath.sync_fst
  have hsent : sent' = sent ++ ls.filterMap Label.message? := Path.record_iff.mp hpath.sync_snd
  obtain ⟨hinv, hdriver, os, hos, hmessages⟩ := h
  obtain ⟨os', hos', hout⟩ := hos.messages hinv hworld
  have hdriver' : w'.driver = d :=
    Driver.Calls.unique (hdriver ▸ (World.since_of_path hworld).driver) hcalls
  refine ⟨hinv.of_path hworld, hdriver', os', hos', ?_⟩
  show sent' = _
  rw [hsent, show sent = _ from hmessages, List.append_assoc, hout]
  simp only [List.append_assoc]
  rfl

theorem stable_delivers : Stable mailbox Delivers := by
  constructor
  intro p e e' h hseen
  obtain ⟨hinv, hdriver, os, hos, hsent⟩ := h.seen .nil hseen
  exact ⟨hinv, hdriver, os, hos, by simpa using hsent⟩

theorem keeps_delivers_command {α : Type} (m : CommandMethod α) :
    Keeps mailbox Delivers (command m) where
  grows := by
    intro p r p' h
    obtain ⟨out, radio, -, -, rfl⟩ := returns_command_iff.mp h
    exact List.prefix_append _ _
  post := by
    intro p r p' e e' actions hp h hactions hseen
    obtain ⟨out, radio, hcommand, -, rfl⟩ := returns_command_iff.mp h
    obtain rfl := (List.append_cancel_left hactions).symm
    obtain ⟨hcalls, hevents⟩ := Std.Radio.command_calls hcommand
    obtain ⟨hinv, hdriver, os, hos, hsent⟩ := hp.seen hcalls hseen
    refine ⟨hinv, hdriver, os, hos, ?_⟩
    rw [hsent]
    exact congrArg (_ ++ · ++ _) hevents

theorem keeps_delivers_printLine {line : Line} (h : line.event? = none) :
    Keeps mailbox Delivers (printLine line) := by
  refine .modify stable_delivers (fun _ => rfl) ?_
  rintro p e ⟨hinv, hdriver, os, hos, hsent⟩
  refine ⟨hinv, hdriver, os, hos, ?_⟩
  rw [hsent, List.filterMap_append, List.filterMap_cons_none h, List.filterMap_nil, List.append_nil]

/-- What `next_event` returns has left the queue, and is to be printed. -/
structure Hears (r : Except Error Event) (p : Process) (e : World × List Event) : Prop where
  inv : e.1.Inv
  driver : e.1.driver = p.radio.driver
  sent : ∃ os, e.1.Carries os ∧ e.2 = p.lines.filterMap Line.event? ++
    (r.toOption.toList ++ p.radio.events) ++ os.filterMap Output.event?

theorem nextEvent_triple (timeout : Nat) :
    Triple mailbox Delivers (nextEvent timeout) Hears where
  grows := by
    intro p r p' h
    obtain ⟨out, radio, -, -, rfl⟩ := returns_nextEvent_iff.mp h
    exact List.prefix_append _ _
  post := by
    intro p r p' e e' actions hp h hactions hseen
    obtain ⟨out, radio, hcall, rfl, rfl⟩ := returns_nextEvent_iff.mp h
    obtain rfl := (List.append_cancel_left hactions).symm
    obtain ⟨hcalls, hevents⟩ := Std.Radio.nextEvent_calls hcall
    obtain ⟨hinv, hdriver, os, hos, hsent⟩ := hp.seen hcalls hseen
    refine ⟨hinv, hdriver, os, hos, ?_⟩
    have hout : (out.mapError Error.std).toOption = out.toOption := by cases out <;> rfl
    rw [hsent, hout]
    exact congrArg (_ ++ · ++ _) hevents

/-- An error leaves everything as it was. -/
theorem Hears.delivers {err : Error} {p : Process} {e : World × List Event}
    (h : Hears (.error err) p e) : Delivers p e :=
  ⟨h.inv, h.driver, h.sent⟩

theorem heard_triple (r : Except Error Event) :
    Triple mailbox (Hears r) (heard r) fun _ => Delivers := by
  -- an event is printed as the line that tells of it
  have hprint {ev : Event} {line : Line} (hline : line.event? = some ev) :
      Triple mailbox (Hears (.ok ev)) (printLine line) fun _ => Delivers := by
    refine (Triple.modify (f := fun p => { p with lines := p.lines ++ [line] })
      (fun _ => stable_delivers) fun _ => rfl).weaken ?_ id
    rintro p e ⟨hinv, hdriver, os, hos, hsent⟩
    refine ⟨hinv, hdriver, os, hos, ?_⟩
    rw [hsent, List.filterMap_append, List.filterMap_cons_some hline]
    simp [Except.toOption]
  unfold heard
  split
  · exact hprint rfl
  · exact hprint rfl
  · exact (Triple.pure (fun _ => stable_delivers) ()).weaken Hears.delivers id
  · exact (Triple.throw (fun _ => stable_delivers) _).weaken Hears.delivers id

theorem Cmd.kept_delivers (c : Cmd) : c.Kept mailbox Delivers := by
  refine ⟨stable_delivers, keeps_delivers_command, keeps_delivers_printLine,
    fun _ => ?_⟩
  refine (nextEvent_triple _).attempt.bind (fun r => ?_) ?_
  · refine (heard_triple r).weaken ?_ id
    rintro p e ⟨r₀, hr, h⟩
    cases hr
    exact h
  · rintro err p e ⟨r₀, hr, -⟩
    cases hr

end

section

attribute [local instance] Target.host

end

section

variable [Target]

/-! ### The end of `listen` -/

/-- The line that tells of an event. -/
def eventLine : Event → Line
  | .recv fromAddr data rssi snr => .message fromAddr rssi snr data
  | .ready => .rebooted

/-- From `p` to `p'`, `next_event` is called after each look that does not find `stop` set, up to
the first one that does, and the events that it returns are printed. -/
structure Listened (p : Process) (stops : List Bool) (dones : List Std.Done) (p' : Process) :
    Prop where
  stopped : ∃ rest, stops = List.replicate dones.length false ++ true :: rest
  session : Component.run Std.Radio.perform p.radio
    (List.replicate dones.length (.nextEvent 1000000000)) = .ok (dones, p'.radio)
  printed : p'.lines = p.lines ++ (dones.filterMap Std.Done.event).map eventLine

/-- What `listen` does between two looks at `stop` does not fail: `next_event` fails with no other
error than `Error::Timeout`. -/
theorem hear_returns {timeout : Nat} {p p' : Process} {r : Except Error Unit}
    (h : Returns (attempt (nextEvent timeout) >>= heard) p r p') :
    r = .ok () ∧ ∃ done, p.radio.perform (.nextEvent timeout) = .ok (done, p'.radio) ∧
      p'.lines = p.lines ++ (done.event.toList).map eventLine := by
  rcases returns_bind_iff.mp h with ⟨err, -, h⟩ | ⟨r₀, p₁, h, hheard⟩
  · obtain ⟨r₀, hr, -⟩ := returns_attempt_iff.mp h
    cases hr
  · obtain ⟨r₁, hr, h⟩ := returns_attempt_iff.mp h
    obtain rfl := Except.ok.inj hr
    obtain ⟨out, radio, hcall, rfl, rfl⟩ := returns_nextEvent_iff.mp h
    have hperform : p.radio.perform (.nextEvent timeout) =
        .ok (⟨out.toOption, p.radio.nextEventCalls timeout⟩, radio) :=
      Except.bind_eq_ok.mpr ⟨_, hcall, rfl⟩
    rcases out with err | e
    · rw [Std.Radio.nextEvent_error hcall] at hheard
      obtain ⟨hr, rfl⟩ := returns_pure_iff.mp hheard
      exact ⟨hr, _, hperform, (List.append_nil _).symm⟩
    · cases e with
      | recv | ready =>
        obtain ⟨hr, rfl⟩ := returns_modify_iff.mp hheard
        exact ⟨hr, _, hperform, rfl⟩

theorem listenLoop_returns {stops : List Bool} {p p' : Process} {r : Except Error Unit}
    (h : Returns (listenLoop stops) p r p') : r = .ok () ∧ ∃ dones, Listened p stops dones p' := by
  induction stops generalizing p with
  | nil => cases h
  | cons stop stops ih =>
    cases stop with
    | true =>
      obtain ⟨hr, rfl⟩ := returns_pure_iff.mp h
      exact ⟨hr, [], ⟨stops, rfl⟩, rfl, (List.append_nil _).symm⟩
    | false =>
      have h : Returns (attempt (nextEvent 1000000000) >>= fun r => heard r >>= fun _ =>
        listenLoop stops) p r p' := h
      rw [← bind_assoc] at h
      rcases returns_bind_iff.mp h with ⟨err, -, h⟩ | ⟨_, p₁, hhear, h⟩
      · cases (hear_returns h).1
      · obtain ⟨-, done, hperform, hline⟩ := hear_returns hhear
        obtain ⟨hr, dones, ⟨rest, hstops⟩, hsession, hlines⟩ := ih h
        refine ⟨hr, done :: dones, ⟨rest, ?_⟩, ?_, ?_⟩
        · rw [hstops]
          rfl
        · rw [List.length_cons, List.replicate_succ, Component.run_cons hperform, hsession]
          rfl
        · rw [hlines, hline, List.append_assoc, ← List.map_append, Component.filterMap_cons]

/-- **The end of `listen`.** When it returns, it returns what `set_handler` has returned: no error
of the port or of the driver ends it. If the handler has been installed, it has gone on until it has
found `stop` set. -/
theorem listen_returns {p p' : Process} {r : Except Error Unit} (h : Returns listen p r p') :
    r = p.handler.mapError .other ∧
      (p.handler = .ok () → ∃ dones, Listened p p.stops dones p') := by
  rcases returns_bind_iff.mp h with ⟨err, rfl, hask⟩ | ⟨⟨⟩, p₁, hask, hrest⟩
  · obtain ⟨hhandler, -⟩ := returns_ask_iff.mp hask
    refine ⟨hhandler, fun hok => ?_⟩
    rw [hok] at hhandler
    cases hhandler
  · obtain ⟨hhandler, rfl⟩ := returns_ask_iff.mp hask
    rcases returns_bind_iff.mp hrest with ⟨err, -, hask⟩ | ⟨stops, p₂, hask, hloop⟩
    · cases (returns_ask_iff.mp hask).1
    · obtain ⟨hstops, rfl⟩ := returns_ask_iff.mp hask
      cases hstops
      obtain ⟨hr, hlistened⟩ := listenLoop_returns hloop
      exact ⟨hr.trans hhandler, fun _ => hlistened⟩

end

section

attribute [local instance] Target.host

/-- The port fails, and then `listen` is stopped. -/
theorem listen_returns_stopped : ∃ (r : Except Error Unit) (p : Process),
    Returns listen (.start ⟨[], [.error (.other 5)], [0]⟩ (.ok []) (.ok ()) [false, true]) r p ∧
      p.radio.port.reads = [] ∧ r = .ok () := by
  have hrun : ((listen.run.run (.start ⟨[], [.error (.other 5)], [0]⟩ (.ok []) (.ok ())
      [false, true])).map fun q => q.2.radio.port.reads) = .ok [] := by
    decide +kernel
  obtain ⟨⟨r, p⟩, hreturns, hreads⟩ := Except.map_eq_ok.mp hrun
  exact ⟨r, p, hreturns, hreads, (listen_returns hreturns).1⟩

end

end Tool

end Rylr998
