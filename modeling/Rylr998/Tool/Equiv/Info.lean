import Rylr998.Tool.Equiv.Answering
import Rylr998.Tool.Equiv.Settings

/-!
# What `info` prints

In a clean run every value that `info` prints is one of the radio, also when it fails on the way
(`info_truthful`). Only the first line may differ: it says whether the radio has answered the ping.
-/

namespace Rylr998

/-- The line that `info` prints of it. -/
def Reading.line {α : Type} : Reading α → α → Tool.Line
  | setting .address, v => .address v
  | setting .networkId, v => .networkId v
  | setting .band, v => .band v
  | setting .cpin, v => .cpin v
  | setting .parameters, v => .parameters v
  | crfop, v => .crfop v
  | uid, v => .uid v
  | version, v => .version v

namespace Tool

open Interact Labelled

/-- What `info` asks for, in order. -/
def readings : List (Σ α : Type, Reading α) :=
  [⟨_, .setting .address⟩, ⟨_, .setting .networkId⟩, ⟨_, .setting .band⟩, ⟨_, .setting .cpin⟩,
    ⟨_, .setting .parameters⟩, ⟨_, .crfop⟩, ⟨_, .uid⟩, ⟨_, .version⟩]

/-- The lines that are true of the radio. -/
def truths (ks : List (Σ α : Type, Reading α)) (s : Settings) : List Line :=
  ks.map fun k => k.2.line (k.2.get s)

/-- What `info` prints of a radio, with the result of the ping. -/
def report (ping : Except Error Unit) (s : Settings) : List Line :=
  .ping (marker ping) :: truths readings s

section

variable [Target] {s₀ : Settings}

/-- Ask for something and print it. -/
def showReading (k : Σ α : Type, Reading α) : ToolM Unit := do
  printLine (k.2.line (← command k.2.method))

theorem info_eq : info = (do
    printLine (.ping (marker (← attempt (command .ping))))
    readings.forM showReading) := by
  simp only [info, readings, List.forM_eq_forM, List.forM_cons, List.forM_nil, showReading,
    bind_assoc, bind_pure_unit]
  rfl

/-- All that is printed is true. -/
def Printed (s₀ : Settings) (p : Process) : Prop := ∃ ping, p.lines <+: report ping s₀

/-- What is printed is true, and the truths about `ks` are missing. -/
def Missing (s₀ : Settings) (ks : List (Σ α : Type, Reading α)) (lines : List Line)
    (s : Settings) : Prop :=
  (∃ ping, lines ++ truths ks s₀ = report ping s₀) ∧ s = s₀

/-- How `info` ends. -/
inductive Reported (s₀ : Settings) : Except Error Unit → Process → World × Settings → Prop
  | ok {p : Process} {e : World × Settings} : Ready (Missing s₀ []) p e → Reported s₀ (.ok ()) p e
  | failed {err : Error} {p : Process} {e : World × Settings} : Printed s₀ p →
    Reported s₀ (.error err) p e

theorem stable_reported (r : Except Error Unit) :
    Stable (environment (Device.plain Settings.Truthful)) (Reported s₀ r) := by
  constructor
  intro p e e' h hseen
  cases h with
  | ok h => exact .ok ((stable_ready _).keeps h hseen)
  | failed h => exact .failed h

theorem Missing.printed {ks : List (Σ α : Type, Reading α)} {p : Process} {e : World × Settings}
    (h : Ready (Missing s₀ ks) p e) : Printed s₀ p := by
  obtain ⟨-, ⟨ping, hlines⟩, -⟩ := h
  exact ⟨ping, hlines ▸ List.prefix_append _ _⟩

/-- A command method prints nothing. -/
theorem printed_command {α : Type} {m : CommandMethod α} {p p' : Process} {r : Except Error α}
    (h : Returns (command m) p r p') (hp : Printed s₀ p) : Printed s₀ p' := by
  obtain ⟨out, radio, -, -, rfl⟩ := returns_command_iff.mp h
  exact hp

theorem readings_triple (ks : List (Σ α : Type, Reading α)) :
    Triple (environment (Device.plain Settings.Truthful)) (Ready (Missing s₀ ks))
      (ks.forM showReading) (Reported s₀) := by
  induction ks with
  | nil => exact (Triple.pure stable_reported ()).weaken .ok id
  | cons k ks ih =>
    show Triple _ _ (showReading k >>= fun _ => ks.forM showReading) _
    unfold showReading
    rw [bind_assoc]
    have hget := (get_triple k.2 (Missing s₀ (k :: ks))).frame (F := Printed s₀) printed_command
    refine (hget.weaken (fun h => ⟨h, Missing.printed h⟩) id).bind (fun a => ?_) ?_
    · refine (printLine_bind _ (stable_ready _) ih).weaken ?_ id
      rintro p e ⟨hreturned, -⟩
      obtain ⟨hsettled, ⟨⟨ping, hlines⟩, rfl⟩, rfl⟩ := returned_ok_iff.mp hreturned
      refine ⟨hsettled, ⟨ping, ?_⟩, rfl⟩
      rw [← hlines, List.append_assoc]
      rfl
    · intro err p e h
      exact .failed h.2

/-- Once the ping is in flight nothing more is printed. -/
theorem readings_triple_stuck :
    Triple (environment (Device.plain Settings.Truthful)) (fun p _ => Stuck p ∧ Printed s₀ p)
      (readings.forM showReading) (Reported s₀) := by
  show Triple _ _ (showReading ⟨_, .setting .address⟩ >>= fun _ => readings.tail.forM _) _
  unfold showReading
  rw [bind_assoc]
  have hcommand := (@command_triple_stuck _ _ (Device.plain Settings.Truthful) _
    (Reading.setting .address).method).frame (F := Printed s₀) printed_command
  refine hcommand.bind (fun a => ?_) ?_
  · refine (printLine_bind _ (stable_ready _) (readings_triple readings.tail)).weaken ?_ id
    rintro p e ⟨⟨⟨err, herr⟩, -⟩, -⟩
    cases herr
  · intro err p e h
    exact .failed h.2

/-- The ping leaves the settings alone. -/
theorem ping_triple (R : List Line → Settings → Prop) :
    Triple (environment (Device.plain Settings.Truthful)) (Ready R) (command .ping)
      fun _ p e => Ready R p e ∨ Stuck p := by
  refine (command_triple .ping R).weaken id ?_
  intro r p e h
  cases h with
  | answered _ h =>
    obtain ⟨hsettled, s, hR, hdev, -⟩ := h
    exact Or.inl ⟨hsettled, Settings.ping_of_truthful hdev ▸ hR⟩
  | refused h => exact Or.inl h
  | stuck h => exact Or.inr h

theorem info_triple :
    Triple (environment (Device.plain Settings.Truthful))
      (Ready fun lines s => lines = [] ∧ s = s₀) info (Reported s₀) := by
  rw [info_eq]
  have hnothing {p p' : Process} {r : Except Error Unit} (h : Returns (command .ping) p r p')
      (hp : p.lines = []) : p'.lines = [] := by
    obtain ⟨out, radio, -, -, rfl⟩ := returns_command_iff.mp h
    exact hp
  have hping := (ping_triple fun _ s => s = s₀).frame (F := fun p => p.lines = []) hnothing
  have hstable : Stable (environment (Device.plain Settings.Truthful)) fun p e =>
      Ready (Missing s₀ readings) p e ∨ Stuck p ∧ Printed s₀ p :=
    ⟨fun h hseen => h.imp_left ((stable_ready _).keeps · hseen)⟩
  have hreadings := (@readings_triple _ s₀ readings).or readings_triple_stuck
  refine (hping.attempt.weaken (fun h => ⟨⟨h.1, h.2.2⟩, h.2.1⟩) id).bind (fun r => ?_) ?_
  · refine (printLine_bind (.ping (marker r)) hstable hreadings).weaken ?_ id
    rintro p e ⟨r₀, -, ⟨hsettled, hs⟩ | hstuck, hlines⟩
    · refine Or.inl ⟨hsettled, ⟨r, ?_⟩, hs⟩
      rw [hlines]
      rfl
    · refine Or.inr ⟨hstuck, r, ?_⟩
      show p.lines ++ [_] <+: _
      rw [hlines]
      exact List.prefix_append _ _
  · rintro err p e ⟨r₀, hr, -⟩
    cases hr

/-- **`info` tells the truth.** What it prints in a clean run is, from the first line on, what the
radio would report of itself; when it returns without an error, it is all of that. Only the first
line may differ: it says how the ping went. -/
theorem info_truthful {port : Std.Port} {stdin : Except ErrorKind (List UInt8)}
    {handler : Except String Unit} {stops : List Bool} {p : Process} {r : Except Error Unit}
    {ls : List Label} {w : World} {s : Settings}
    (h : Returns info (.start port stdin handler stops) r p)
    (hpath : Path (Device.Happens Settings.Truthful) (World.init, s₀) ls (w, s))
    (hclean : ∀ l ∈ ls, l.Clean) (hls : ls.filterMap Label.call? = p.calls) :
    ∃ ping, p.lines <+: report ping s₀ ∧ (r = .ok () → p.lines = report ping s₀ ∧ s = s₀) := by
  have hreported := info_triple.post (ready_start s₀ port stdin handler stops) h rfl
    ⟨ls, Device.plain_of_clean hpath hclean, hls⟩
  cases hreported with
  | ok h =>
    obtain ⟨-, ⟨ping, hlines⟩, hs⟩ := h
    have hlines : p.lines = report ping s₀ := (List.append_nil _).symm.trans hlines
    exact ⟨ping, hlines ▸ List.prefix_refl _, fun _ => ⟨hlines, hs⟩⟩
  | failed h =>
    obtain ⟨ping, hlines⟩ := h
    exact ⟨ping, hlines, nofun⟩

/-! ### A radio that answers at once -/

theorem readings_possible (ks : List (Σ α : Type, Reading α))
    (hline : ∀ k ∈ ks, ∃ line, AtOnce k.2.query line (k.2.reply (k.2.get s₀))) :
    ∃ cs, Possible (environment Settings.Store) (Live cs (· = s₀)) (ks.forM showReading)
      fun _ => Live [] (· = s₀) := by
  induction ks with
  | nil => exact ⟨[], (Possible.pure ()).weaken id id⟩
  | cons k ks ih =>
    obtain ⟨⟨line, h⟩, hline⟩ := List.forall_mem_cons.mp hline
    obtain ⟨cs, hrest⟩ := ih hline
    rw [← k.2.method_command] at h
    refine ⟨h.chunk :: cs, ?_⟩
    have hcommand : Possible (environment Settings.Store) (Live (h.chunk :: cs) (· = s₀))
        (command k.2.method) fun a p e => a = k.2.get s₀ ∧ Live cs (· = s₀) p e := by
      refine command_possible h (k.2.method_want_reply _) ?_
      rintro s rfl
      rw [k.2.method_command]
      exact ⟨s, Settings.store_query k.2 s, rfl⟩
    show Possible _ _ (showReading k >>= fun _ => ks.forM showReading) _
    unfold showReading
    rw [bind_assoc]
    exact hcommand.bind fun a =>
      ((printLine_possible _).weaken And.right id).bind fun _ => hrest

/-- A radio that answers at once makes `info` succeed, when what it reports is not too long. -/
theorem info_possible
    (hline : ∀ k ∈ readings, ∃ line, AtOnce k.2.query line (k.2.reply (k.2.get s₀))) :
    ∃ cs, Possible (environment Settings.Store) (Live cs (· = s₀)) info
      fun _ => Live [] (· = s₀) := by
  obtain ⟨cs, hreadings⟩ := readings_possible readings hline
  have hatOnce : AtOnce CommandMethod.ping.command (utf8 "+OK") .ok := atOnce_ping
  refine ⟨hatOnce.chunk :: cs, ?_⟩
  rw [info_eq]
  have hping : Possible (environment Settings.Store) (Live (hatOnce.chunk :: cs) (· = s₀))
      (command .ping) fun a p e => a = () ∧ Live cs (· = s₀) p e := by
    refine command_possible hatOnce rfl ?_
    rintro s rfl
    exact ⟨s, Settings.store_ping s, rfl⟩
  refine hping.attempt.bind fun r => ((printLine_possible _).weaken ?_ id).bind fun _ => hreadings
  rintro p e ⟨a, -, -, h⟩
  exact h

end

section

attribute [local instance] Target.host

/-- A radio that answers all of it. -/
theorem info_truthful_answered : ∃ (p : Process) (s s₀ : Settings) (ping : Except Error Unit),
    p.lines = report ping s₀ ∧ s = s₀ := by
  let s₀ : Settings := ⟨5, 18, 915000000, "FABC0002", ⟨9, 7, 1, 12⟩, 22, "ID", "1.2"⟩
  have hline : ∀ k ∈ readings, ∃ line, AtOnce k.2.query line (k.2.reply (k.2.get s₀)) := by
    have hsetting {α : Type} (k : Setting α) (h : k.Reportable (k.get s₀)) : ∃ line,
        AtOnce (Reading.setting k).query line ((Reading.setting k).reply (k.get s₀)) :=
      Setting.exists_atOnce_query h
    simp only [readings, List.forall_mem_cons]
    refine ⟨hsetting .address trivial, hsetting .networkId trivial, hsetting .band trivial,
      hsetting .cpin (Or.inr ⟨by decide, by decide, by decide⟩), hsetting .parameters trivial,
      ?_, ?_, ?_, List.forall_mem_nil _⟩
    · exact ⟨_, by decide, by decide, .query (.crfop (denotes_numeral 22)), nofun, by decide,
        by decide⟩
    · exact ⟨_, by decide, by decide, .query (.uid "ID"), nofun, by decide, by decide⟩
    · exact ⟨_, by decide, by decide, .query (.version "1.2"), nofun, by decide, by decide⟩
  obtain ⟨cs, hinfo⟩ := info_possible hline
  obtain ⟨⟨⟩, p, calls, ⟨w, s⟩, hreturns, hcalls, hseen, -⟩ :=
    hinfo.returns (live_start cs (.ok []) (.ok ()) [] rfl)
  obtain rfl : p.calls = calls := hcalls
  obtain ⟨ls, hpath, hls⟩ := hseen
  obtain ⟨hpath, hclean⟩ := Device.path_cleanly_iff.mp hpath
  have htruthful := hpath.mono fun hmove => hmove.mono And.left
  obtain ⟨ping, -, hok⟩ := info_truthful hreturns htruthful hclean hls
  exact ⟨p, s, s₀, ping, hok rfl⟩

end

end Tool

end Rylr998
