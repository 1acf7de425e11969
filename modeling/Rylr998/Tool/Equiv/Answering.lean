import Rylr998.System.Prompt
import Rylr998.System.Settings
import Rylr998.Tool.Equiv.Session

/-!
# A radio that answers the tool at once

A port that reads the answers of a radio that keeps its settings (`Live`), and what the tool can do
with it.
-/

namespace Rylr998.Tool

open Interact Labelled

section

variable [Target] {α : Type} {cs : List Chunk}

/-- A port that writes what it is given, and reads the chunks, one after each write. -/
def answering (cs : List Chunk) : Std.Port :=
  ⟨cs.map fun _ => .ok (), cs.map .ok, cs.flatMap fun _ => [0, 0]⟩

/-- The driver and the radio hold nothing, the port is going to read the chunks, and `P` is true of
the settings. -/
structure Live (cs : List Chunk) (P : Settings → Prop) (p : Process) (e : World × Settings) :
    Prop where
  quiet : e.1.Quiet
  driver : e.1.driver = p.radio.driver
  port : p.radio.port = answering cs
  holds : P e.2

theorem command_possible {m : CommandMethod α} {a : α} {line : List UInt8} {r : Response}
    (h : AtOnce m.command line r) (hwant : m.want r = some (.ok a)) {P P' : Settings → Prop}
    (hdev : ∀ {s}, P s → ∃ s', s.Store (m.command, r) s' ∧ P' s') :
    Possible (environment Settings.Store) (Live (h.chunk :: cs) P) (command m)
      fun a' p e => a' = a ∧ Live cs P' p e := by
  constructor
  rintro p ⟨w, s⟩ ⟨hquiet, hdriver, hport, hs⟩
  obtain ⟨s', hstep, hs'⟩ := hdev hs
  obtain ⟨d', hexchanged, hquiet'⟩ := hquiet.driver.exchanged h
  obtain ⟨w', hseen, hw', hd'⟩ := hquiet.seen_of_exchanged h hexchanged hquiet' hstep
  have htimeout : 0 < 0 + m.timeout := by
    unfold CommandMethod.timeout
    split <;> decide
  obtain ⟨hcommand, hcalls⟩ :=
    Std.Radio.command_of_exchanged h (hdriver ▸ hexchanged) hwant hport htimeout
  refine ⟨a, { p with radio := ⟨d', answering cs, p.radio.events⟩, calls := _ }, _, (w', s'),
    returns_command_iff.mpr ⟨.ok a, _, hcommand, rfl, rfl⟩, congrArg (p.calls ++ ·) hcalls, hseen,
    rfl, hw', hd', rfl, hs'⟩

theorem printLine_possible (line : Line) {P : Settings → Prop} :
    Possible (environment Settings.Store) (Live cs P) (printLine line) fun _ => Live cs P := by
  have hprint := @Possible.modify _ Error Halt _ _ _ (environment Settings.Store)
    (fun p => { p with lines := p.lines ++ [line] }) (fun _ => Live cs P) fun _ => rfl
  exact hprint.weaken (fun h => ⟨h.quiet, h.driver, h.port, h.holds⟩) id

theorem live_start (cs : List Chunk) (stdin : Except ErrorKind (List UInt8))
    (handler : Except String Unit) (stops : List Bool) {P : Settings → Prop} {s : Settings}
    (hs : P s) : Live cs P (.start (answering cs) stdin handler stops) (World.init, s) :=
  ⟨World.quiet_init, rfl, rfl, hs⟩

end

end Rylr998.Tool
