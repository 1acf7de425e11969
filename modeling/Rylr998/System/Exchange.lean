import Rylr998.Host.Equiv.Answers
import Rylr998.Host.Equiv.Exchange
import Rylr998.System.Sequential

/-!
# A command method and the radio

A command method of the blocking radio, called while nothing is in flight, is one step of the radio:
it returns with the answer that the radio has given to its command, and nothing else has been
answered meanwhile (`Std.Radio.exchange_spec`). When it returns without an answer the driver has
refused the command, and the radio has not moved, or the command is still in flight.
-/

namespace Rylr998

open Labelled

section

variable [Target] {σ : Type} {dev : Device σ}

/-- The radio answers a command with a response that the command expects. -/
theorem World.Moves.expects {w w' : World} {cmd : Command} {r : Response}
    (h : w.Moves (.answer cmd r) w') : cmd.Expects r := by
  cases h with
  | reply _ hl =>
    refine ⟨answeredBy_of_isReply hl, ?_⟩
    rintro s rfl
    exact utf8ByteSize_of_isReply hl
  | ready => exact ⟨rfl, nofun⟩

theorem World.expects_of_path {w w' : World} {ls : List Label} (h : Path World.Moves w ls w') :
    ∀ p ∈ ls.filterMap Label.answer?, p.1.Expects p.2 := by
  induction h with
  | nil => nofun
  | @cons w w₁ w' l ls hmove _ ih =>
    rintro ⟨cmd, r⟩ hp
    obtain ⟨l', hmem, hl'⟩ := List.mem_filterMap.mp hp
    rcases List.mem_cons.mp hmem with rfl | hmem
    · cases l' with
      | answer =>
        cases hl'
        exact hmove.expects
      | garbled => cases hmove
      | call | message | reset | noise => cases hl'
    · exact ih _ (List.mem_filterMap.mpr ⟨l', hmem, hl'⟩)

/-- The device, for commands other than passwords with a terminator inside. -/
def Device.plain (dev : Device σ) : Device σ :=
  fun s l s' => dev s l s' ∧ ¬ l.1.Splits

/-- In a clean run a device is plain. -/
theorem Device.plain_of_clean {s₀ s : σ} {w : World} {ls : List Label}
    (h : Path dev.Happens (World.init, s₀) ls (w, s)) (hclean : ∀ l ∈ ls, l.Clean) :
    Path dev.plain.Cleanly (World.init, s₀) ls (w, s) := by
  have hworld : Path World.Happens World.init ls w := h.sync_fst
  have hdev : Path dev s₀ (ls.filterMap Label.answer?) s := h.sync_snd
  have hanswered : w.answered = ls.filterMap Label.answer? :=
    (World.since_of_happens hworld).answered
  have hplain : ∀ l ∈ ls.filterMap Label.answer?, ¬ l.1.Splits := by
    intro l hl
    refine World.not_splits_of_clean hworld hclean _ ?_
    exact (World.answered_prefix hworld).mem (List.mem_map_of_mem (hanswered ▸ hl))
  have hpath : Path dev.plain s₀ (ls.filterMap Label.answer?) s :=
    hdev.restrict (fun hstep hl => ⟨hstep, hl⟩) hplain
  exact Path.keeping_iff.mpr ⟨(World.moves_of_clean hworld hclean).sync_of hpath, hclean⟩

/-- The driver of a radio is the one of the system, and nothing is in flight. -/
structure Std.Radio.Settled (radio : Std.Radio) (w : World) : Prop where
  inv : w.Inv
  driver : w.driver = radio.driver
  idle : radio.driver.state = .idle

namespace Std.Radio

/-- What the calls of a radio in which nothing is in flight lead to: the radio has answered the
commands accepted, but for those that are left in flight. -/
theorem Settled.seen {radio : Radio} {w w' : World} {s s' : σ} {calls : List Call} {d' : Driver}
    (h : radio.Settled w) (hcalls : radio.driver.Calls calls d')
    (hseen : Seen dev.Moves Label.call? (w, s) calls (w', s')) :
    w'.Inv ∧ w'.driver = d' ∧
      (calls.filterMap Call.response?).length ≤ (accepted calls).length ∧
      (d'.state = .idle ↔
        (calls.filterMap Call.response?).length = (accepted calls).length) ∧
      ∃ ahead, (d'.state = .idle → ahead = []) ∧
        Path dev s ((accepted calls).zip (calls.filterMap Call.response?) ++ ahead) s' ∧
        ∀ p ∈ (accepted calls).zip (calls.filterMap Call.response?) ++ ahead, p.1.Expects p.2 := by
  obtain ⟨hinv, hdriver, hidle⟩ := h
  obtain ⟨ls, hpath, rfl⟩ := hseen
  have hworld : Path World.Moves w ls w' := hpath.sync_fst
  have hdev : Path dev s (ls.filterMap Label.answer?) s' := hpath.sync_snd
  have hexpects := World.expects_of_path hworld
  have hinv' := hinv.of_path hworld
  have hsince := World.since_of_path hworld
  obtain rfl : w'.driver = d' := Driver.Calls.unique (hdriver ▸ hsince.driver) hcalls
  obtain ⟨hle, hiff, ahead, hanswers, hahead⟩ := hsince.answers_eq hinv hinv' (hdriver ▸ hidle)
  rw [hanswers] at hdev hexpects
  exact ⟨hinv', rfl, hle, hiff, ahead, hahead, hdev, hexpects⟩

/-- While nothing is in flight the radio is left alone. -/
theorem Settled.silent {radio : Radio} {w w' : World} {s s' : σ} (h : radio.Settled w)
    (hseen : Seen dev.Moves Label.call? (w, s) [] (w', s')) : radio.Settled w' ∧ s' = s := by
  obtain ⟨hinv, hdriver, -, -, ahead, hahead, hdev, -⟩ := h.seen .nil hseen
  rw [hahead h.idle] at hdev
  cases hdev
  exact ⟨⟨hinv, hdriver, h.idle⟩, rfl⟩

/-- How a command method returns: the state of the radio before and after. -/
inductive ExchangeSpec {α : Type} (dev : Device σ) (cmd : Command)
    (want : Response → Option (Except Error α)) (radio' : Radio) (w' : World) (s s' : σ) :
    Except Error α → Prop
  /-- The radio has answered. -/
  | answered {r : Response} {out : Except Error α} : radio'.Settled w' → dev s (cmd, r) s' →
    want r = some out → ExchangeSpec dev cmd want radio' w' s s' out
  /-- The driver has refused the command. -/
  | refused : radio'.Settled w' → s' = s →
    ExchangeSpec dev cmd want radio' w' s s' (.error (.core .txOverflow))
  /-- The command is in flight. -/
  | gaveUp {e : Error} : radio'.driver.state ≠ .idle → (∀ code, e ≠ .radio code) →
    ExchangeSpec dev cmd want radio' w' s s' (.error e)

theorem exchange_spec {α : Type} {cmd : Command} {timeout : Nat}
    {want : Response → Option (Except Error α)} {radio radio' : Radio} {w w' : World} {s s' : σ}
    {out : Except Error α} (hsettled : radio.Settled w)
    (hwant : ∀ r, cmd.Expects r → want r ≠ none)
    (h : radio.command cmd timeout want = .ok (out, radio'))
    (hseen : Seen dev.Moves Label.call? (w, s) (radio.commandCalls cmd timeout want) (w', s')) :
    ExchangeSpec dev cmd want radio' w' s s' out := by
  obtain ⟨hinv, hdriver, hle, hiff, ahead, hahead, hdev, hexpects⟩ :=
    hsettled.seen (command_calls h).1 hseen
  cases command_spec h with
  | @refused e d' hsubmit hcalls =>
    rw [hcalls] at hiff hdev
    have hidle : radio'.driver.state = .idle := hiff.mpr rfl
    rw [hahead hidle] at hdev
    cases hdev
    rcases Driver.submit_error_inv hsubmit with ⟨-, hbusy, -⟩ | ⟨rfl, -⟩
    · exact absurd hsettled.idle hbusy
    · exact .refused ⟨hinv, hdriver, hidle⟩ rfl
  | answered _ hacc hends =>
    obtain ⟨rs, r, hrs, hr, -⟩ := hends
    rw [hacc, hrs, List.length_append, List.length_singleton, List.length_singleton] at hle
    obtain rfl : rs = [] := List.length_eq_zero_iff.mp (by omega)
    rw [hacc, hrs] at hiff hdev
    have hidle : radio'.driver.state = .idle := hiff.mpr rfl
    rw [hahead hidle] at hdev
    cases hdev with
    | cons hstep hnil =>
      cases hnil
      exact .answered ⟨hinv, hdriver, hidle⟩ hstep hr
  | gaveUp hacc hends hcode =>
    refine .gaveUp ?_ hcode
    rw [Ne, hiff, hacc]
    intro hlen
    obtain ⟨r, hrs⟩ := List.length_eq_one_iff.mp hlen
    -- a response would be the answer, and the method has a result for it
    refine hwant r (hexpects (cmd, r) ?_) (hends r ?_)
    · rw [hacc, hrs]
      exact List.mem_append_left _ (List.mem_singleton.mpr rfl)
    · rw [hrs]
      exact List.mem_singleton.mpr rfl

end Std.Radio

end

end Rylr998
