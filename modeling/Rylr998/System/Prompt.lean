import Rylr998.Host.Equiv.AtOnce
import Rylr998.System.Moves

/-!
# A radio that answers at once

The exchange of a command that is answered at once, as moves of the system. Before it and after it
nothing is on its way (`World.Quiet`).
-/

namespace Rylr998

open Labelled

/-- The moves of a command that is answered at once. -/
def exchangeMoves (cmd : Command) (line : List UInt8) (r : Response) : List Label :=
  [.call (.submit cmd (.ok ())), .call (.poll (.needTx (wire cmd))),
    .call (.ackTx (wire cmd).length), .call (.poll .idle), .answer cmd r,
    .call (.pushRx (line ++ [cr, lf]) (.ok (line ++ [cr, lf]).length)),
    .call (.poll (.response r))]

section

variable [Target] {cmd : Command} {line : List UInt8} {r : Response}

/-- The driver holds nothing and the wire is empty. -/
structure World.Quiet (w : World) : Prop where
  inv : w.Inv
  driver : w.driver.Quiet
  wire : w.wire = []

theorem World.quiet_init : init.Quiet := ⟨inv_init, Driver.quiet_new, rfl⟩

/-- The radio owes nothing. -/
theorem World.Quiet.answered {w : World} (hw : w.Quiet) :
    w.resetting = false ∧ w.accepted = w.answered.map Prod.fst := by
  obtain ⟨-, ls, -, -, htr⟩ := hw.inv
  cases htr with
  | idle _ hres hacc => exact ⟨hres, hacc⟩
  | unanswered h => exact absurd hw.driver.idle h.inFlight
  | answered hstate => exact absurd hw.driver.idle hstate

section

variable {w : World} {d : Driver}

theorem World.Moves.submit (h : w.driver.submit cmd = .ok (.ok (), d)) :
    w.Moves (.call (.submit cmd (.ok ())))
      { w with driver := d, accepted := w.accepted ++ [cmd] } := by
  have hmove := World.Moves.call (w := w) (by nofun) (Driver.step_submit h)
  rwa [World.called, show (Call.submit cmd (.ok ())).response?.toList = [] from rfl,
    List.append_nil] at hmove

theorem World.Moves.ackTx {n : Nat} (h : w.driver.ackTx n = .ok d) :
    w.Moves (.call (.ackTx n)) { w with driver := d } := by
  have hmove := World.Moves.call (w := w) (by nofun) (Driver.step_ackTx h)
  rwa [World.called_eq rfl rfl] at hmove

theorem World.Moves.poll {p : Poll} (h : w.driver.poll = .ok (p, d)) :
    w.Moves (.call (.poll p)) (w.called (.poll p) d) :=
  .call (by nofun) (Driver.step_poll h)

/-- A poll that returns no response. -/
theorem World.Moves.poll_quiet {p : Poll} (h : w.driver.poll = .ok (p, d))
    (hp : (Call.poll p).response? = none) : w.Moves (.call (.poll p)) { w with driver := d } := by
  rw [← World.called_eq (c := .poll p) rfl hp]
  exact .poll h

end

/-- The system makes the exchange. -/
theorem World.Quiet.path_of_exchanged {w : World} {d' : Driver} (hw : w.Quiet)
    (h : AtOnce cmd line r) (hd : w.driver.Exchanged cmd line r d') (hd' : d'.Quiet) :
    ∃ w', Path World.Moves w (exchangeMoves cmd line r) w' ∧ w'.Quiet ∧ w'.driver = d' := by
  obtain @⟨d₁, d₂, d₃, d₄, hsubmit, hneed, hack, hidle, hpush, hresponse⟩ := hd
  obtain ⟨hres, hacc⟩ := hw.answered
  let sent : World := { w with driver := d₃, accepted := w.accepted ++ [cmd] }
  let answered : World :=
    { sent with wire := line ++ [cr, lf], answered := w.answered ++ [(cmd, r)] }
  let pushed : World := { answered with driver := d₄, wire := [] }
  have howes : sent.Owes cmd := by
    refine ⟨hres, ?_⟩
    show (w.accepted ++ [cmd])[w.answered.length]? = some cmd
    rw [hacc, ← List.length_map (f := Prod.fst), List.getElem?_concat_length]
  have hlen : line.length ≤ lineBufLength := (Nat.le_of_add_right_le h.short).trans (by decide)
  have hsent : Path World.Moves w ((exchangeMoves cmd line r).take 4) sent :=
    .cons (.submit hsubmit) (.cons (.poll_quiet hneed rfl) (.cons (.ackTx hack)
      (.single (.poll_quiet hidle rfl))))
  have hanswered : sent.Moves (.answer cmd r) answered := by
    have hreply := World.Moves.reply howes h.reply h.notOk h.oneLine hlen
    rw [World.sent, show sent.wire = [] from hw.wire, List.nil_append] at hreply
    exact hreply
  have hpushed : answered.Moves (.call (.pushRx (line ++ [cr, lf])
      (.ok (line ++ [cr, lf]).length))) pushed :=
    .push (List.append_nil _).symm (Driver.step_pushRx hpush)
  have hresponse : pushed.Moves (.call (.poll (.response r)))
      (pushed.called (.poll (.response r)) d') := .poll hresponse
  have hpath := hsent.append (.cons hanswered (.cons hpushed (.single hresponse)))
  exact ⟨_, hpath, ⟨hw.inv.of_path hpath, hd', rfl⟩, rfl⟩

omit [Target] in
/-- Nothing is lost in the exchange. -/
theorem clean_exchangeMoves (h : ¬ cmd.Splits) : ∀ l ∈ exchangeMoves cmd line r, l.Clean := by
  simp only [exchangeMoves, List.forall_mem_cons]
  exact ⟨h, trivial, trivial, trivial, trivial, trivial, trivial, List.forall_mem_nil _⟩

/-- The system and the device make the exchange. -/
theorem World.Quiet.seen_of_exchanged {σ : Type} {dev : Device σ} {w : World} {d' : Driver}
    {s s' : σ} (hw : w.Quiet) (h : AtOnce cmd line r) (hd : w.driver.Exchanged cmd line r d')
    (hd' : d'.Quiet) (hs : dev s (cmd, r) s') :
    ∃ w', Seen dev.Cleanly Label.call? (w, s) (exchangeCalls cmd line r) (w', s') ∧ w'.Quiet ∧
      w'.driver = d' := by
  obtain ⟨w', hpath, hw', rfl⟩ := hw.path_of_exchanged h hd hd'
  have hclean : ∀ l ∈ exchangeMoves cmd line r, l.Clean := clean_exchangeMoves h.single
  exact ⟨w', ⟨_, Path.keeping_iff.mpr ⟨hpath.sync_of (.single hs), hclean⟩, rfl⟩, hw', rfl⟩

end

end Rylr998
