import Rylr998.System.Prompt

/-!
# The history that the caller sees

Between a command and its response there are partial writes, fragments, messages and a radio that
works on its own. In a clean run the caller sees none of it: what it has been returned is a history
of a radio that answers each command in one step (`sequential_history`). The radio is ahead of the
caller by the answer that is on its way, if there is one.
-/

namespace Rylr998

open Labelled

theorem zip_map_append {α β : Type} (l : List (α × β)) (as : List α) :
    (l.map Prod.fst ++ as).zip (l.map Prod.snd) = l := by
  induction l with
  | nil => exact List.zip_nil_right
  | cons p l ih => exact congrArg (p :: ·) ih

section

variable [Target] {w : World}

/-- The slot is free when every accepted command has its response. -/
theorem World.Inv.idle_iff (h : w.Inv) :
    w.driver.state = .idle ↔ w.responses.length = w.accepted.length := by
  obtain ⟨-, ls, -, -, htr⟩ := h
  cases htr with
  | idle hstate _ hacc hresp =>
    exact iff_of_true hstate (by rw [hacc, hresp, List.length_map, List.length_map])
  | unanswered h =>
    refine iff_of_false h.inFlight ?_
    rw [h.accepted, h.responses]
    simp
  | answered hstate _ _ hans hacc hresp =>
    refine iff_of_false hstate ?_
    rw [hacc, hresp, hans]
    simp

/-- What the radio has answered is what the caller has been returned and, behind it, the answer that
is on its way. -/
theorem World.Inv.answered_eq (h : w.Inv) :
    ∃ ahead, w.answered = w.accepted.zip w.responses ++ ahead ∧ ahead.length ≤ 1 ∧
      (w.driver.state = .idle → ahead = []) := by
  obtain ⟨-, ls, -, -, htr⟩ := h
  cases htr with
  | idle _ _ hacc hresp =>
    refine ⟨[], ?_, Nat.zero_le _, fun _ => rfl⟩
    rw [hacc, hresp, List.append_nil, ← List.append_nil (w.answered.map Prod.fst), zip_map_append]
  | unanswered h =>
    refine ⟨[], ?_, Nat.zero_le _, fun _ => rfl⟩
    rw [h.accepted, h.responses, zip_map_append, List.append_nil]
  | @answered cmd r answered _ _ _ hstate _ _ hans hacc hresp =>
    refine ⟨[(cmd, r)], ?_, Nat.le_refl _, fun h => absurd h hstate⟩
    rw [hacc, hresp, hans, List.map_append, zip_map_append]

theorem World.Inv.responses_le (h : w.Inv) : w.responses.length ≤ w.accepted.length := by
  obtain ⟨hacc, hresp⟩ := h.prefixes
  have hle := hacc.length_le
  have hle' := hresp.length_le
  rw [List.length_map] at hle hle'
  exact hle'.trans hle

/-- What happens from a state in which no command is in flight on: the commands accepted and the
responses returned are, one by one, what the radio has answered. -/
theorem World.Since.answers_eq {w' : World} {calls : List Call}
    {answers : List (Command × Response)} (h : w.Since calls answers w') (hinv : w.Inv)
    (hinv' : w'.Inv) (hidle : w.driver.state = .idle) :
    (calls.filterMap Call.response?).length ≤ (Rylr998.accepted calls).length ∧
      (w'.driver.state = .idle ↔
        (calls.filterMap Call.response?).length = (Rylr998.accepted calls).length) ∧
      ∃ ahead, answers = (Rylr998.accepted calls).zip (calls.filterMap Call.response?) ++ ahead ∧
        (w'.driver.state = .idle → ahead = []) := by
  have hlen := hinv.idle_iff.mp hidle
  have hle := hinv'.responses_le
  have hiff := hinv'.idle_iff
  rw [h.accepted, h.responses, List.length_append, List.length_append, hlen] at hle hiff
  refine ⟨Nat.le_of_add_le_add_left hle, hiff.trans Nat.add_left_cancel_iff, ?_⟩
  obtain ⟨ahead, hans, -, hnil⟩ := hinv.answered_eq
  obtain ⟨ahead', hans', -, hnil'⟩ := hinv'.answered_eq
  refine ⟨ahead', ?_, hnil'⟩
  rw [hnil hidle, List.append_nil] at hans
  rw [h.answered, h.accepted, h.responses, hans, List.zip_append hlen.symm,
    List.append_assoc] at hans'
  exact List.append_cancel_left hans'

/-- What the radio has answered is a history of it, whatever happens. -/
theorem Device.path_answered {σ : Type} {dev : Device σ} {s₀ s : σ} {ls : List Label}
    (h : Path dev.Happens (World.init, s₀) ls (w, s)) : Path dev s₀ w.answered s := by
  have hworld : Path World.Happens World.init ls w := h.sync_fst
  have hdev : Path dev s₀ (ls.filterMap Label.answer?) s := h.sync_snd
  have hanswered := (World.since_of_happens hworld).answered
  rw [show World.init.answered = [] from rfl, List.nil_append] at hanswered
  rwa [hanswered]

/-- What the caller has been returned and, behind it, the answer that is on its way is a history of
the radio. -/
theorem Device.history {σ : Type} {dev : Device σ} {s₀ s : σ} {ls : List Label}
    (h : Path dev.Moves (World.init, s₀) ls (w, s)) :
    ∃ ahead, Path dev s₀ (w.accepted.zip w.responses ++ ahead) s ∧ ahead.length ≤ 1 ∧
      (w.driver.state = .idle → ahead = []) := by
  have hworld : Path World.Moves World.init ls w := h.sync_fst
  obtain ⟨ahead, hans, hlen, hidle⟩ := (World.inv_init.of_path hworld).answered_eq
  have hdev := Device.path_answered (h.mono Device.Moves.happens)
  rw [hans] at hdev
  exact ⟨ahead, hdev, hlen, hidle⟩

/-- **The history is sequential.** In a clean run the commands accepted and the responses returned
so far are a history of the radio as a device that answers each command in one step. The radio is
ahead of it by at most one answer, and by none while no command is in flight. -/
theorem sequential_history {σ : Type} {dev : Device σ} {s₀ s : σ} {ls : List Label}
    (h : Path dev.Happens (World.init, s₀) ls (w, s)) (hclean : ∀ l ∈ ls, l.Clean) :
    ∃ s₁ ahead, Path dev s₀ (w.accepted.zip w.responses) s₁ ∧ Path dev s₁ ahead s ∧
      ahead.length ≤ 1 ∧ (w.driver.state = .idle → ahead = []) := by
  obtain ⟨ahead, hdev, hlen, hidle⟩ := Device.history (Device.moves_of_clean h hclean)
  obtain ⟨s₁, hpast, hahead⟩ := hdev.append_inv
  exact ⟨s₁, ahead, hpast, hahead, hlen, hidle⟩

end

section

attribute [local instance] Target.host

/-- A radio that counts the pings. -/
def pings : Device Nat := fun n l n' => l = (.ping, .ok) ∧ n' = n + 1

theorem sequential_history_pings : ∃ w : World, w.accepted = [.ping] ∧
    ∃ s₁ ahead, Path pings 0 (w.accepted.zip w.responses) s₁ ∧ Path pings s₁ ahead 1 ∧
      ahead.length ≤ 1 ∧ (w.driver.state = .idle → ahead = []) := by
  obtain ⟨d, hd, hquiet⟩ := Driver.quiet_new.exchanged atOnce_ping
  obtain ⟨w, hpath, -, -⟩ := World.quiet_init.path_of_exchanged atOnce_ping hd hquiet
  have hdev : Path pings 0 [(.ping, .ok)] 1 := .single ⟨rfl, rfl⟩
  exact ⟨w, (World.since_of_path hpath).accepted,
    sequential_history ((hpath.sync_of hdev).mono Device.Moves.happens)
      (clean_exchangeMoves (by decide))⟩

end

end Rylr998
