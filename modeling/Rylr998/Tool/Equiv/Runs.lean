import Rylr998.Tool.Equiv.Provision

/-!
# What a run of the tool keeps

A command of the tool is made of calls of command methods, of lines that it prints and, for
`listen`, of calls of `next_event`. What all of these keep is kept by the whole command, however it
ends (`Cmd.keeps`).
-/

namespace Rylr998.Tool

open Interact

/-- The event that a line of `listen` tells of. -/
def Line.event? : Line → Option Event
  | .message fromAddr rssi snr data => some (.recv fromAddr data rssi snr)
  | .rebooted => some .ready
  | _ => none

section

variable [Target] {ξ ι : Type} {E : Interact.Setting Process ξ ι Call} {P : Process → ξ → Prop}

/-- The parts of the command keep `P`. -/
structure Cmd.Kept (E : Interact.Setting Process ξ ι Call) (P : Process → ξ → Prop) (c : Cmd) :
    Prop where
  stable : Stable E P
  command : ∀ {α : Type} (m : CommandMethod α), Keeps E P (command m)
  print : ∀ {line : Line}, line.event? = none → Keeps E P (printLine line)
  hear : c = .listen → Keeps E P (attempt (nextEvent 1000000000) >>= heard)

namespace Cmd.Kept

variable {c : Cmd}

theorem verify (h : c.Kept E P) {α : Type} (k : Setting α) (v : α) : Keeps E P
    (setAndVerify (k.setMethod v) (Reading.setting k).method (k.same · v) k.field) := by
  refine .bind (h.command _) fun _ => .bind (h.command _) fun a => ?_
  dsimp only
  split
  · exact .pure h.stable ()
  · exact .throw h.stable _

theorem listenLoop (h : Kept E P .listen) (stops : List Bool) :
    Keeps E P (listenLoop stops) := by
  induction stops with
  | nil => exact ⟨(nomatch ·), fun _ h => nomatch h⟩
  | cons stop stops ih =>
    cases stop with
    | true => exact .pure h.stable ()
    | false =>
      show Keeps E P (attempt (nextEvent 1000000000) >>= fun r => heard r >>= fun _ => _)
      rw [← bind_assoc]
      exact .bind (h.hear rfl) fun _ => ih

end Cmd.Kept

/-- What the parts of a command of the tool keep is kept by the command. -/
theorem Cmd.keeps {c : Cmd} (h : c.Kept E P) : Keeps E P c.run := by
  cases c with
  | info =>
    have hquery {α : Type} (m : CommandMethod α) {line : α → Line}
        (hline : ∀ a, (line a).event? = none) {rest : ToolM Unit} (hrest : Keeps E P rest) :
        Keeps E P (Tool.command m >>= fun a => printLine (line a) >>= fun _ => rest) :=
      .bind (h.command m) fun a => .bind (h.print (hline a)) fun _ => hrest
    refine .bind (.attempt (h.command .ping)) fun r => .bind (h.print rfl) fun _ => ?_
    refine hquery .address (fun _ => rfl) <| hquery .networkId (fun _ => rfl) <|
      hquery .band (fun _ => rfl) <| hquery .cpin (fun _ => rfl) <|
      hquery .parameters (fun _ => rfl) <| hquery .crfop (fun _ => rfl) <|
      hquery .uid (fun _ => rfl) ?_
    exact .bind (h.command .version) fun a => h.print rfl
  | provision address net cpin band params =>
    have hverify {α : Type} (k : Setting α) :
        Keeps E P ((⟨address, net, cpin, band, params⟩ : Request).verify k) :=
      .forM h.stable fun v _ => h.verify k v
    show Keeps E P (Tool.provision address net cpin band params)
    rw [show Tool.provision address net cpin band params = _ from
      provision_eq ⟨address, net, cpin, band, params⟩]
    exact .bind (hverify .address) fun _ => .bind (hverify .networkId) fun _ =>
      .bind (hverify .cpin) fun _ => .bind (hverify .band) fun _ =>
      .bind (hverify .parameters) fun _ => h.print rfl
  | reset => exact h.command .factoryReset
  | send toAddr message =>
    have hsend (bytes : List UInt8) :
        Keeps E P (Tool.command (.send toAddr bytes) >>= fun _ => printLine .sent) :=
      .bind (h.command _) fun _ => h.print rfl
    show Keeps E P (Tool.send toAddr message)
    unfold Tool.send
    split
    · exact .bind (.ask h.stable _) hsend
    · exact .bind (.pure h.stable _) hsend
  | listen =>
    exact .bind (.ask h.stable _) fun _ => .bind (.ask h.stable _) fun stops => h.listenLoop stops

end

end Rylr998.Tool
