import Rylr998.Tool.Equiv.Script

/-!
# What the tool leaves alone

The script of a command of the tool says which settings it leaves alone, however it returns: with
success, with an error of the radio or of the port, or with a timeout, and also when bytes are lost
or garbled on the way (`run_leaves_alone`).
-/

namespace Rylr998.Tool

open Interact Labelled

/-- The settings that a command of the tool may change. -/
def Cmd.Changes {α : Type} (k : Setting α) : Cmd → Prop
  | provision address net cpin band params =>
    (⟨address, net, cpin, band, params⟩ : Request).asks k ≠ none
  | reset => True
  | info | send _ _ | listen => False

theorem Request.mem_script {α : Type} {q : Request} {k : Setting α} {cmd : Command}
    (h : cmd ∈ q.script k) : ∃ v, q.asks k = some v ∧ (cmd = k.setter v ∨ cmd = k.query) := by
  obtain ⟨v, hask, hcmd⟩ := List.mem_flatMap.mp h
  refine ⟨v, Option.mem_toList.mp hask, ?_⟩
  rwa [List.mem_cons, List.mem_singleton] at hcmd

/-- Only a setting that is asked for has its setter in the script of `provision`. -/
theorem Request.asks_of_mem_script {α β : Type} {q : Request} {k : Setting α} {k' : Setting β}
    {cmd : Command} (h : cmd ∈ q.script k') (hcmd : cmd = .factoryReset ∨ ∃ v, cmd = k.setter v) :
    q.asks k ≠ none := by
  obtain ⟨v', hask, rfl | rfl⟩ := q.mem_script h
  · rcases hcmd with hcmd | ⟨v, hcmd⟩
    · exact absurd hcmd Setting.setter_ne_factoryReset
    · obtain ⟨rfl, hk⟩ := Sigma.mk.inj (Setting.field_injective (Setting.field_of_setter hcmd))
      obtain rfl := eq_of_heq hk
      exact ne_of_eq_of_ne hask (Option.some_ne_none _)
  · rcases hcmd with hcmd | ⟨v, hcmd⟩
    · exact absurd hcmd Setting.query_ne_factoryReset
    · exact absurd hcmd.symm Setting.setter_ne_query

theorem Cmd.changes_of_mem_script {α : Type} {k : Setting α} {c : Cmd} {cmd : Command}
    {stdin : Except ErrorKind (List UInt8)} (h : cmd ∈ c.script stdin)
    (hcmd : cmd = .factoryReset ∨ ∃ v, cmd = k.setter v) : c.Changes k := by
  cases c with
  | info =>
    have hnot : ∀ cmd ∈ infoCommands, cmd ≠ .factoryReset ∧ ∀ v, cmd ≠ k.setter v := by
      simp only [infoCommands, List.forall_mem_cons]
      cases k <;> simp [Setting.setter]
    obtain ⟨hreset, hset⟩ := hnot cmd h
    rcases hcmd with hcmd | ⟨v, hcmd⟩
    · exact absurd hcmd hreset
    · exact absurd hcmd (hset v)
  | provision address net cpin band params =>
    simp only [script, List.mem_append] at h
    rcases h with h | h | h | h | h <;> exact Request.asks_of_mem_script h hcmd
  | reset => trivial
  | send toAddr message =>
    have h : cmd ∈ sendScript toAddr message stdin := h
    have hsend : ∃ bytes, cmd = .send toAddr bytes := by
      unfold sendScript at h
      split_ifs at h
      · obtain ⟨bytes, -, rfl⟩ := List.mem_map.mp h
        exact ⟨bytes, rfl⟩
      · exact ⟨_, List.mem_singleton.mp h⟩
    obtain ⟨bytes, rfl⟩ := hsend
    rcases hcmd with hcmd | ⟨v, hcmd⟩
    · cases hcmd
    · cases k <;> cases hcmd
  | listen => cases h

section

variable [Target]

/-- **What the tool leaves alone.** However a command of the tool returns, and whatever becomes of
the answers, the settings that it is not asked to change are as they were. -/
theorem run_leaves_alone {α : Type} {c : Cmd} {k : Setting α} (hk : ¬ c.Changes k)
    {port : Std.Port} {stdin : Except ErrorKind (List UInt8)} {handler : Except String Unit}
    {stops : List Bool} {p : Process} {r : Except Error Unit} {s₀ s : Settings} {w : World}
    {ls : List Label} (hsplits : ∀ cmd ∈ c.script stdin, ¬ cmd.Splits)
    (h : Returns c.run (.start port stdin handler stops) r p)
    (hpath : Path (Device.Happens Settings.Obedient) (World.init, s₀) ls (w, s))
    (hls : ls.filterMap Label.call? = p.calls) : k.get s = k.get s₀ := by
  have haccepted : w.accepted = accepted p.calls :=
    hls ▸ (World.since_of_happens (hpath.sync_fst : Path World.Happens World.init ls w)).accepted
  refine setting_unchanged hpath fun cmd hcmd => ?_
  have hmem := (Cmd.accepted_of_returns h).1.mem (haccepted ▸ hcmd)
  exact ⟨hsplits cmd hmem, fun h => hk (Cmd.changes_of_mem_script hmem (Or.inl h)),
    fun v h => hk (Cmd.changes_of_mem_script hmem (Or.inr ⟨v, h⟩))⟩

end

section

attribute [local instance] Target.host

/-- A radio that is provisioned with an address and a network keeps its band. -/
theorem run_leaves_alone_band : ∃ s : Settings,
    Setting.band.get s = Setting.band.get ⟨0, 18, 915000000, "", ⟨9, 7, 1, 12⟩, 22, "", ""⟩ := by
  have hq : (⟨5, 18, none, none, none⟩ : Request).Reportable := by
    rintro α (_ | _ | _ | _ | _) v h <;> cases h <;> trivial
  obtain ⟨port, h⟩ := exists_provisioned hq ⟨0, 18, 915000000, "", ⟨9, 7, 1, 12⟩, 22, "", ""⟩
  obtain ⟨p, ls, ⟨w, s⟩, hreturns, hpath, -, hls⟩ := h (.ok []) (.ok ()) []
  have hobedient : Path (Device.Happens Settings.Obedient) _ ls (w, s) :=
    hpath.mono fun hmove => hmove.mono fun hstore => hstore.1.obedient
  have hk : ¬ (Cmd.provision 5 18 none none none).Changes Setting.band := fun h => h rfl
  exact ⟨s, run_leaves_alone hk (by decide) hreturns hobedient hls⟩

end

end Rylr998.Tool
