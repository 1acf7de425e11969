import Rylr998.Core.Equiv.OneLine
import Rylr998.Lib.Paths
import Rylr998.System.Agreement

/-!
# The moves of a driver and a radio

The steps of a driver and a radio with labels: a label says what the caller has called or what the
radio has sent, and a path is a run of which one can say what happened in it. The history that the
system keeps grows by what the path shows (`World.since_of_path`).

`World.Happens` is all that can happen: a push that overflows `rx` loses its bytes, a password may
hold a terminator, and the radio may send what it likes. `World.Moves` are the steps of
`World.Step`: each push fits, each command is one line, and the radio sends answers and messages,
each in one line that `line_buf` can hold. They are the moves whose label is `Label.Clean`. A run is
clean if all its moves are, and most results about the whole system are about clean runs: after an
overflow the rest of a cut message can pass for an answer.

A `Device` says in one step what a radio answers to a command and how its own state changes. A radio
that behaves like it is one whose answers the device follows (`Device.Moves`, `Device.Happens`).
-/

namespace Rylr998

open Labelled

/-- What a move shows. -/
inductive Label where
  /-- The caller makes a call. -/
  | call (c : Call)
  /-- The radio sends a message. -/
  | message (e : Event)
  /-- The radio starts a factory reset. -/
  | reset
  /-- The radio answers a command. -/
  | answer (cmd : Command) (r : Response)
  /-- Other bytes come from the radio: a message with a terminator in it or one that is too long, a
  restart, a piece of a line. -/
  | noise (bytes : List UInt8)
  /-- The radio answers a command, but what comes is not a line that stands for the answer. -/
  | garbled (cmd : Command) (r : Response)

/-- The call of the caller. -/
def Label.call? : Label → Option Call
  | .call c => some c
  | _ => none

/-- The answer of the radio. -/
def Label.answer? : Label → Option (Command × Response)
  | .answer cmd r | .garbled cmd r => some (cmd, r)
  | _ => none

/-- What the radio sends for the caller. -/
def Label.output? : Label → Option Output
  | .message e => some (.event e)
  | .answer _ r => some (.response r)
  | _ => none

/-- Nothing is lost and nothing misunderstood: no push overflows `rx`, the radio sends answers and
messages and each of them in one line, and it can tell the commands apart because no password holds
a terminator. -/
def Label.Clean : Label → Prop
  | .call (.pushRx _ (.error _)) | .noise _ | .garbled _ _ => False
  | .call (.submit cmd (.ok ())) => ¬ cmd.Splits
  | _ => True

instance : DecidablePred Label.Clean
  | .call (.pushRx _ (.error _)) | .noise _ | .garbled _ _ => inferInstanceAs (Decidable False)
  | .call (.submit cmd (.ok ())) => inferInstanceAs (Decidable (¬ cmd.Splits))
  | .call (.submit _ (.error _)) | .call (.pushRx _ (.ok _)) | .call (.poll _) | .call (.ackTx _)
  | .message _ | .reset | .answer _ _ => inferInstanceAs (Decidable True)

/-- The moves of the caller and of the radio: the steps of `World.Step`. Every push fits, a message
is one line of at most `lineBufLength` bytes, and so is an answer. -/
inductive World.Moves [Target] (w : World) : Label → World → Prop
  | call {op : Op} {c : Call} {d : Driver} : (∀ bytes, op ≠ .pushRx bytes) →
    w.driver.step op = .ok (c, d) → Moves w (.call c) (w.called c d)
  | push {bytes rest : List UInt8} {n : Nat} {d : Driver} : w.wire = bytes ++ rest →
    w.driver.step (.pushRx bytes) = .ok (.pushRx bytes (.ok n), d) →
    Moves w (.call (.pushRx bytes (.ok n))) { w with driver := d, wire := rest }
  | message {line : List UInt8} {e : Event} : IsRcv line e → cr ∉ line →
    line.length ≤ lineBufLength → Moves w (.message e) (w.sent line)
  | reply {cmd : Command} {line : List UInt8} {r : Response} : w.Owes cmd →
    IsReply cmd.awaitKind line r → (cmd = .factoryReset → r ≠ .ok) → cr ∉ line →
    line.length ≤ lineBufLength →
    Moves w (.answer cmd r) { w.sent line with answered := w.answered ++ [(cmd, r)] }
  | reset : w.Owes .factoryReset →
    Moves w .reset { w.sent (utf8 "+RESET") with resetting := true }
  | ready : w.resetting = true → Moves w (.answer .factoryReset .ok)
      { w.sent (utf8 "+READY") with
        answered := w.answered ++ [(.factoryReset, .ok)]
        resetting := false }

/-- All that can happen to the system. -/
inductive World.Happens [Target] (w : World) : Label → World → Prop
  | move {l : Label} {w' : World} : w.Moves l w' → Happens w l w'
  /-- A fragment does not fit into `rx` and is lost. -/
  | lost {bytes rest : List UInt8} {e : Error} {d : Driver} : w.wire = bytes ++ rest →
    w.driver.step (.pushRx bytes) = .ok (.pushRx bytes (.error e), d) →
    Happens w (.call (.pushRx bytes (.error e))) { w with driver := d, wire := rest }
  | noise (bytes : List UInt8) : Happens w (.noise bytes) { w with wire := w.wire ++ bytes }
  | garbled {cmd : Command} {r : Response} (bytes : List UInt8) : w.Owes cmd →
    Happens w (.garbled cmd r)
      { w with wire := w.wire ++ bytes, answered := w.answered ++ [(cmd, r)] }

/-- What a radio answers: its state, the command with the response, and the state after. -/
abbrev Device (σ : Type) : Type := σ → Command × Response → σ → Prop

/-- The moves of a driver and a radio that answers as `dev` says. -/
def Device.Moves [Target] {σ : Type} (dev : Device σ) : World × σ → Label → World × σ → Prop :=
  sync World.Moves Label.answer? dev

/-- All that can happen to a driver and a radio that answers as `dev` says. -/
def Device.Happens [Target] {σ : Type} (dev : Device σ) : World × σ → Label → World × σ → Prop :=
  sync World.Happens Label.answer? dev

/-- The clean moves of a driver and a radio that answers as `dev` says. -/
def Device.Cleanly [Target] {σ : Type} (dev : Device σ) (e : World × σ) (l : Label)
    (e' : World × σ) : Prop :=
  dev.Moves e l e' ∧ l.Clean

/-- A device that does more. -/
theorem Device.Happens.mono [Target] {σ : Type} {dev dev' : Device σ} {e e' : World × σ} {l : Label}
    (h : dev.Happens e l e') (hdev : ∀ {s l s'}, dev s l s' → dev' s l s') :
    dev'.Happens e l e' := by
  cases h with
  | alone hmove hl => exact .alone hmove hl
  | together hmove hl hstep => exact .together hmove hl (hdev hstep)

section

variable [Target]

theorem World.step_iff_moves {w w' : World} : World.Step w w' ↔ ∃ l, w.Moves l w' := by
  constructor
  · rintro (⟨hop, hs⟩ | ⟨hw, hs⟩ | ⟨hl, hcr, hlen⟩ | ⟨ho, hl, hok, hcr, hlen⟩ | ho | hr)
    · exact ⟨_, .call hop hs⟩
    · exact ⟨_, .push hw hs⟩
    · exact ⟨_, .message hl hcr hlen⟩
    · exact ⟨_, .reply ho hl hok hcr hlen⟩
    · exact ⟨_, .reset ho⟩
    · exact ⟨_, .ready hr⟩
  · rintro ⟨l, ⟨hop, hs⟩ | ⟨hw, hs⟩ | ⟨hl, hcr, hlen⟩ | ⟨ho, hl, hok, hcr, hlen⟩ | ho | hr⟩
    · exact .call hop hs
    · exact .push hw hs
    · exact .message hl hcr hlen
    · exact .reply ho hl hok hcr hlen
    · exact .reset ho
    · exact .ready hr

theorem World.Happens.moves {w w' : World} {l : Label} (h : w.Happens l w') (hl : l.Clean) :
    w.Moves l w' := by
  cases h with
  | move h => exact h
  | lost | noise | garbled => exact hl.elim

/-- A clean run is one of the steps of `World.Step`. -/
theorem World.moves_of_clean {w w' : World} {ls : List Label} (h : Path World.Happens w ls w')
    (hclean : ∀ l ∈ ls, l.Clean) : Path World.Moves w ls w' :=
  h.restrict (fun hmove hl => hmove.moves hl) hclean

/-- A clean run with a device. -/
theorem Device.moves_of_clean {σ : Type} {dev : Device σ} {e e' : World × σ} {ls : List Label}
    (h : Path dev.Happens e ls e') (hclean : ∀ l ∈ ls, l.Clean) : Path dev.Moves e ls e' := by
  refine h.restrict (fun hstep hl => ?_) hclean
  cases hstep with
  | alone hmove hnone => exact .alone (hmove.moves hl) hnone
  | together hmove hsome hdev => exact .together (hmove.moves hl) hsome hdev

theorem Device.Moves.happens {σ : Type} {dev : Device σ} {e e' : World × σ} {l : Label}
    (h : dev.Moves e l e') : dev.Happens e l e' := by
  cases h with
  | alone hmove hnone => exact .alone (.move hmove) hnone
  | together hmove hsome hdev => exact .together (.move hmove) hsome hdev

/-- A run of clean moves is a clean run. -/
theorem Device.path_cleanly_iff {σ : Type} {dev : Device σ} {e e' : World × σ} {ls : List Label} :
    Path dev.Cleanly e ls e' ↔ Path dev.Happens e ls e' ∧ ∀ l ∈ ls, l.Clean := by
  refine Path.keeping_iff.trans (and_congr_left fun hclean => ?_)
  exact ⟨fun h => h.mono Device.Moves.happens, (Device.moves_of_clean · hclean)⟩

omit [Target] in
/-- In a clean run no accepted command is a password with a terminator inside. -/
theorem not_splits_of_clean {ls : List Label} (hclean : ∀ l ∈ ls, l.Clean) :
    ∀ cmd ∈ accepted (ls.filterMap Label.call?), ¬ cmd.Splits := by
  intro cmd hcmd
  obtain ⟨c, hc, haccepted⟩ := List.mem_filterMap.mp hcmd
  obtain ⟨l, hl, hcall⟩ := List.mem_filterMap.mp hc
  have hl := hclean l hl
  cases l with
  | call c' =>
    obtain rfl : c' = c := Option.some.inj hcall
    rcases c' with ⟨cmd', _ | ⟨⟩⟩ | _ | _ | _
    · cases haccepted
    · cases haccepted
      exact hl
    all_goals cases haccepted
  | message | reset | answer | noise | garbled => cases hcall

theorem World.Inv.of_path {w w' : World} {ls : List Label} (h : Path World.Moves w ls w')
    (hw : w.Inv) : w'.Inv :=
  h.invariant (fun hmove hinv => inv_step hinv (step_iff_moves.mpr ⟨_, hmove⟩)) hw

/-! ### The history -/

/-- The calls of the caller and the answers of the radio between two states of the system. -/
structure World.Since (w : World) (calls : List Call) (answers : List (Command × Response))
    (w' : World) : Prop where
  answered : w'.answered = w.answered ++ answers
  accepted : w'.accepted = w.accepted ++ Rylr998.accepted calls
  responses : w'.responses = w.responses ++ calls.filterMap Call.response?
  driver : ∃ ops, Component.run Driver.step w.driver ops = .ok (calls, w'.driver)

namespace World

theorem Since.refl (w : World) : w.Since [] [] w :=
  ⟨by simp, by simp, by simp, [], rfl⟩

theorem Since.trans {w w₁ w' : World} {calls calls' : List Call}
    {answers answers' : List (Command × Response)} (h : w.Since calls answers w₁)
    (h' : w₁.Since calls' answers' w') : w.Since (calls ++ calls') (answers ++ answers') w' := by
  obtain ⟨ops, hops⟩ := h.driver
  obtain ⟨ops', hops'⟩ := h'.driver
  refine ⟨?_, ?_, ?_, ops ++ ops', ?_⟩
  · rw [h'.answered, h.answered, List.append_assoc]
  · rw [h'.accepted, h.accepted, accepted_append, List.append_assoc]
  · rw [h'.responses, h.responses, List.filterMap_append, List.append_assoc]
  · rw [Component.run_append hops, hops']
    rfl

theorem Moves.since {w w' : World} {l : Label} (h : w.Moves l w') :
    w.Since l.call?.toList l.answer?.toList w' := by
  cases h with
  | @call op c d _ hs =>
    refine ⟨(List.append_nil _).symm, ?_, ?_, _, Component.run_singleton hs⟩
    · exact congrArg (w.accepted ++ ·) (accepted_singleton c).symm
    · show w.responses ++ c.response?.toList = w.responses ++ [c].filterMap Call.response?
      rw [List.filterMap_cons]
      cases c.response? <;> rfl
  | push _ hs =>
    exact ⟨(List.append_nil _).symm, (List.append_nil _).symm, (List.append_nil _).symm, _,
      Component.run_singleton hs⟩
  | message | reset =>
    exact ⟨(List.append_nil _).symm, (List.append_nil _).symm, (List.append_nil _).symm, [], rfl⟩
  | reply | ready =>
    exact ⟨rfl, (List.append_nil _).symm, (List.append_nil _).symm, [], rfl⟩

theorem Happens.since {w w' : World} {l : Label} (h : w.Happens l w') :
    w.Since l.call?.toList l.answer?.toList w' := by
  cases h with
  | move h => exact h.since
  | lost _ hs =>
    exact ⟨(List.append_nil _).symm, (List.append_nil _).symm, (List.append_nil _).symm, _,
      Component.run_singleton hs⟩
  | noise =>
    exact ⟨(List.append_nil _).symm, (List.append_nil _).symm, (List.append_nil _).symm, [], rfl⟩
  | garbled => exact ⟨rfl, (List.append_nil _).symm, (List.append_nil _).symm, [], rfl⟩

theorem since_of_happens {w w' : World} {ls : List Label} (h : Path World.Happens w ls w') :
    w.Since (ls.filterMap Label.call?) (ls.filterMap Label.answer?) w' := by
  induction h with
  | nil => exact Since.refl _
  | @cons w w₁ w' l ls hmove _ ih =>
    have h := hmove.since.trans ih
    rwa [Component.filterMap_cons, Component.filterMap_cons]

theorem since_of_path {w w' : World} {ls : List Label} (h : Path World.Moves w ls w') :
    w.Since (ls.filterMap Label.call?) (ls.filterMap Label.answer?) w' :=
  since_of_happens (h.mono .move)

/-- In a clean run no accepted command is a password with a terminator inside. -/
theorem not_splits_of_clean {w : World} {ls : List Label} (h : Path World.Happens World.init ls w)
    (hclean : ∀ l ∈ ls, l.Clean) : ∀ cmd ∈ w.accepted, ¬ cmd.Splits := by
  rw [(since_of_happens h).accepted]
  exact Rylr998.not_splits_of_clean hclean

/-- The radio answers the accepted commands in turn. -/
structure InTurn (w : World) : Prop where
  answered : w.answered.map Prod.fst <+: w.accepted
  resetting : w.resetting = true → w.accepted[w.answered.length]? = some .factoryReset

omit [Target] in
theorem inTurn_init : init.InTurn := ⟨List.nil_prefix, nofun⟩

omit [Target] in
/-- The next command is answered. -/
theorem InTurn.snoc {w : World} (h : w.InTurn) {cmd : Command} {r : Response}
    (hnext : w.accepted[w.answered.length]? = some cmd) :
    (w.answered ++ [(cmd, r)]).map Prod.fst <+: w.accepted := by
  obtain ⟨rest, hrest⟩ := h.answered
  rw [← hrest, List.getElem?_append_right (List.length_map _).le, List.length_map,
    Nat.sub_self] at hnext
  obtain ⟨rest, rfl⟩ := List.head?_eq_some_iff.mp (List.head?_eq_getElem?.trans hnext)
  exact ⟨rest, by rw [List.map_append, List.append_assoc, ← hrest]; rfl⟩

theorem InTurn.happens {w w' : World} {l : Label} (h : w.InTurn) (hmove : w.Happens l w') :
    w'.InTurn := by
  cases hmove with
  | move hmove =>
    cases hmove with
    | @call op c =>
      refine ⟨h.answered.trans (List.prefix_append _ _), fun hresetting => ?_⟩
      have hnext := h.resetting hresetting
      have hlt := (List.getElem?_eq_some_iff.mp hnext).1
      exact (List.getElem?_append_left hlt).trans hnext
    | push | message => exact ⟨h.answered, h.resetting⟩
    | reply howes =>
      refine ⟨h.snoc howes.2, fun hresetting => ?_⟩
      cases howes.1.symm.trans hresetting
    | reset howes => exact ⟨h.answered, fun _ => howes.2⟩
    | ready hresetting => exact ⟨h.snoc (h.resetting hresetting), nofun⟩
  | lost | noise => exact ⟨h.answered, h.resetting⟩
  | garbled _ howes =>
    refine ⟨h.snoc howes.2, fun hresetting => ?_⟩
    cases howes.1.symm.trans hresetting

/-- Whatever happens, the commands answered are the first ones accepted. -/
theorem answered_prefix {w : World} {ls : List Label} (h : Path World.Happens World.init ls w) :
    w.answered.map Prod.fst <+: w.accepted :=
  (h.invariant (fun hmove hturn => InTurn.happens hturn hmove) inTurn_init).answered

end World

end

end Rylr998
