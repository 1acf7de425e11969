import Rylr998.System.Sequential

/-!
# A radio with settings

The part of a radio that its users rely on: it keeps settings, answers a query with the one asked
for, and changes a setting only when it says `+OK` to the command that sets it, or when it resets
(`Settings.Truthful`). What it makes of the value is left open: a radio may round it, or ignore it.
One that keeps the values it says `+OK` to is a `Settings.Store`, and one of which only the changes
are known, not the answers to queries, is `Settings.Obedient`.
-/

namespace Rylr998

open Labelled

/-- A string is what its bytes are. -/
theorem utf8_injective : Function.Injective utf8 := by
  intro s t h
  have hs : fromUtf8 (utf8 t) = some s := fromUtf8_eq_some_iff.mpr h
  rw [fromUtf8_eq_some_iff.mpr rfl] at hs
  exact (Option.some.inj hs).symm

/-- What a radio keeps. -/
@[ext] structure Settings where
  address : UInt16
  networkId : UInt8
  band : UInt32
  cpin : String
  parameters : RfParams
  crfop : UInt8
  uid : String
  version : String
  deriving DecidableEq

/-- A setting that can be set. -/
inductive Setting : Type → Type where
  | address : Setting UInt16
  | networkId : Setting UInt8
  | band : Setting UInt32
  | cpin : Setting String
  | parameters : Setting RfParams

namespace Setting

variable {α : Type}

/-- Its value. -/
def get (s : Settings) : Setting α → α
  | address => s.address
  | networkId => s.networkId
  | band => s.band
  | cpin => s.cpin
  | parameters => s.parameters

/-- The settings with another value for it. -/
def put (s : Settings) : Setting α → α → Settings
  | address, v => { s with address := v }
  | networkId, v => { s with networkId := v }
  | band, v => { s with band := v }
  | cpin, v => { s with cpin := v }
  | parameters, v => { s with parameters := v }

/-- The command that sets it. -/
def setter : Setting α → α → Command
  | address, v => .setAddress v
  | networkId, v => .setNetworkId v
  | band, v => .setBand v
  | cpin, v => .setCpin (utf8 v)
  | parameters, v => .setParameters v

/-- The command that asks for it. -/
def query : Setting α → Command
  | address => .getAddress
  | networkId => .getNetworkId
  | band => .getBand
  | cpin => .getCpin
  | parameters => .getParameters

/-- The response that carries a value of it. -/
def reply : Setting α → α → Response
  | address, v => .address v
  | networkId, v => .networkId v
  | band, v => .band v
  | cpin, v => .cpin v
  | parameters, v => .parameters v

@[simp] theorem get_put (k : Setting α) (s : Settings) (v : α) : k.get (k.put s v) = v := by
  cases k <;> rfl

end Setting

/-- What a radio can be asked for. -/
inductive Reading : Type → Type 1 where
  | setting {α : Type} (k : Setting α) : Reading α
  | crfop : Reading UInt8
  | uid : Reading String
  | version : Reading String

namespace Reading

variable {α : Type}

/-- What is asked for. -/
def get (s : Settings) : Reading α → α
  | setting k => k.get s
  | crfop => s.crfop
  | uid => s.uid
  | version => s.version

/-- The command that asks for it. -/
def query : Reading α → Command
  | setting k => k.query
  | crfop => .getCrfop
  | uid => .getUid
  | version => .getVersion

/-- The response that carries a value of it. -/
def reply : Reading α → α → Response
  | setting k, v => k.reply v
  | crfop, n => .crfop n
  | uid, s => .uid s
  | version, s => .version s

end Reading

namespace Settings

/-- A radio that tells the truth about its settings. -/
inductive Truthful (s : Settings) : Command × Response → Settings → Prop
  /-- A command that it refuses changes nothing. -/
  | error (cmd : Command) (code : UInt8) : Truthful s (cmd, .err code) s
  | ping : Truthful s (.ping, .ok) s
  | send (toAddr : UInt16) (data : List UInt8) : Truthful s (.send toAddr data, .ok) s
  | query {α : Type} (k : Reading α) : Truthful s (k.query, k.reply (k.get s)) s
  /-- It need not take the value as it is. -/
  | set {α : Type} (k : Setting α) (v v' : α) : Truthful s (k.setter v, .ok) (k.put s v')
  | reset (s' : Settings) : Truthful s (.factoryReset, .ok) s'
  /-- Behind a terminator in a password it reads more commands. -/
  | spliced {cmd : Command} (r : Response) (s' : Settings) : cmd.Splits → Truthful s (cmd, r) s'

/-- A radio that keeps its settings. -/
def Store (s : Settings) (l : Command × Response) (s' : Settings) : Prop :=
  s.Truthful l s' ∧ ∀ {α : Type} (k : Setting α) (v : α), l = (k.setter v, .ok) → k.get s' = v

/-- A radio that changes a setting only when it says `+OK` to the command that sets it, or resets.
What it answers to a query is left open. -/
def Obedient (s : Settings) (l : Command × Response) (s' : Settings) : Prop :=
  ∀ {α : Type} (k : Setting α), ¬ l.1.Splits → (∀ v, l ≠ (k.setter v, .ok)) →
    l ≠ (.factoryReset, .ok) → k.get s' = k.get s

theorem Truthful.obedient {s s' : Settings} {l : Command × Response} (h : s.Truthful l s') :
    s.Obedient l s' := by
  intro α k hsplits hset hreset
  cases h with
  | set k' v v' =>
    cases k <;> cases k' <;> first | rfl | exact absurd rfl (hset v)
  | reset => exact absurd rfl hreset
  | spliced _ _ hcmd => exact absurd hcmd hsplits
  | error | ping | send | query => rfl

theorem not_splits_query {α : Type} (k : Reading α) : ¬ k.query.Splits := by
  rintro ⟨pw, hcmd, -⟩
  rcases k with (_ | _ | _ | _ | _) | _ | _ | _ <;> cases hcmd

/-- A truthful radio answers a query with the setting or with an error. -/
theorem query_of_truthful {α : Type} {k : Reading α} {s s' : Settings} {r : Response}
    (h : s.Truthful (k.query, r) s') :
    s' = s ∧ ((∃ code, r = .err code) ∨ r = k.reply (k.get s)) := by
  generalize hl : (k.query, r) = l at h
  cases h with
  | error cmd code => exact ⟨rfl, Or.inl ⟨code, (Prod.mk.inj hl).2⟩⟩
  | query k' =>
    rcases k with (_ | _ | _ | _ | _) | _ | _ | _ <;>
      rcases k' with (_ | _ | _ | _ | _) | _ | _ | _ <;> cases hl <;> exact ⟨rfl, Or.inr rfl⟩
  | set k' =>
    rcases k with (_ | _ | _ | _ | _) | _ | _ | _ <;> cases k' <;> cases hl
  | spliced _ _ hcmd => exact absurd ((Prod.mk.inj hl).1 ▸ hcmd) (not_splits_query k)
  | ping | send | reset =>
    rcases k with (_ | _ | _ | _ | _) | _ | _ | _ <;> cases hl

theorem ping_of_truthful {s s' : Settings} {r : Response} (h : s.Truthful (.ping, r) s') :
    s' = s := by
  generalize hl : (Command.ping, r) = l at h
  cases h with
  | error | ping => rfl
  | query k => rcases k with (_ | _ | _ | _ | _) | _ | _ | _ <;> cases hl
  | set k => cases k <;> cases hl
  | spliced _ _ hcmd =>
    cases hl
    exact absurd hcmd (by decide)
  | send | reset => cases hl

/-- A truthful radio answers a setter with an error, or with `+OK` when it has set the setting. -/
theorem setter_of_truthful {α : Type} {k : Setting α} {v : α} {s s' : Settings} {r : Response}
    (h : s.Truthful (k.setter v, r) s') (hsplits : ¬ (k.setter v).Splits) :
    (∃ code, r = .err code) ∧ s' = s ∨ r = .ok ∧ ∃ v', s' = k.put s v' := by
  generalize hl : (k.setter v, r) = l at h
  cases h with
  | error cmd code => exact Or.inl ⟨⟨code, (Prod.mk.inj hl).2⟩, rfl⟩
  | set k' v₁ v' =>
    obtain ⟨hcmd, rfl⟩ := Prod.mk.inj hl
    cases k <;> cases k' <;> first | exact Or.inr ⟨rfl, v', rfl⟩ | cases hcmd
  | query k' => cases k <;> rcases k' with (_ | _ | _ | _ | _) | _ | _ | _ <;> cases hl
  | spliced _ _ hcmd => exact absurd ((Prod.mk.inj hl).1 ▸ hcmd) hsplits
  | ping | send | reset => cases k <;> cases hl

/-- A radio that keeps its settings can take any value. -/
theorem store_setter {α : Type} (k : Setting α) (v : α) (s : Settings) :
    s.Store (k.setter v, .ok) (k.put s v) := by
  refine ⟨.set k v v, ?_⟩
  intro β k' v' h
  obtain ⟨hcmd, -⟩ := Prod.mk.inj h
  cases k with
  | cpin =>
    cases k' with
    | cpin =>
      exact utf8_injective (Command.setCpin.inj hcmd)
    | address | networkId | band | parameters => cases hcmd
  | address | networkId | band | parameters =>
    cases k' <;> cases hcmd
    rfl

/-- It answers a query with the setting. -/
theorem store_query {α : Type} (k : Reading α) (s : Settings) :
    s.Store (k.query, k.reply (k.get s)) s := by
  refine ⟨.query k, ?_⟩
  intro β k' v' h
  obtain ⟨hcmd, -⟩ := Prod.mk.inj h
  rcases k with (_ | _ | _ | _ | _) | _ | _ | _ <;> cases k' <;> cases hcmd

theorem store_ping (s : Settings) : s.Store (.ping, .ok) s := by
  refine ⟨.ping, ?_⟩
  intro β k' v' h
  obtain ⟨hcmd, -⟩ := Prod.mk.inj h
  cases k' <;> cases hcmd

end Settings

/-- A setting stays as it is as long as no command is accepted that sets it or resets the radio,
whatever becomes of the answers. -/
theorem setting_unchanged [Target] {α : Type} {k : Setting α} {s₀ s : Settings} {w : World}
    {ls : List Label} (h : Path (Device.Happens Settings.Obedient) (World.init, s₀) ls (w, s))
    (hset : ∀ cmd ∈ w.accepted, ¬ cmd.Splits ∧ cmd ≠ .factoryReset ∧ ∀ v, cmd ≠ k.setter v) :
    k.get s = k.get s₀ := by
  have hpre : w.answered.map Prod.fst <+: w.accepted := World.answered_prefix h.sync_fst
  have hkeeps : ∀ l ∈ w.answered,
      ¬ l.1.Splits ∧ (∀ v, l ≠ (k.setter v, .ok)) ∧ l ≠ (.factoryReset, .ok) := by
    intro l hl
    have hmem : l.1 ∈ w.answered.map Prod.fst := List.mem_map_of_mem hl
    obtain ⟨hsplits, hreset, hsetter⟩ := hset l.1 (hpre.mem hmem)
    refine ⟨hsplits, ?_, ?_⟩
    · rintro v rfl
      exact hsetter v rfl
    · rintro rfl
      exact hreset rfl
  exact (Device.path_answered h).frame (g := k.get)
    (fun hstep hl => hstep k hl.1 hl.2.1 hl.2.2) hkeeps

/-- In a history of a radio that keeps its settings, a query that is answered without an error is
answered with the value that was set last. -/
theorem Settings.reply_of_path {α : Type} {k : Setting α} {v : α} {r : Response} {s₀ s : Settings}
    {pre mid : List (Command × Response)}
    (h : Path Settings.Store s₀ (pre ++ (k.setter v, .ok) :: mid ++ [(k.query, r)]) s)
    (hmid : ∀ l ∈ mid,
      ¬ l.1.Splits ∧ (∀ v', l ≠ (k.setter v', .ok)) ∧ l ≠ (.factoryReset, .ok))
    (hr : ∀ code, r ≠ .err code) : r = k.reply v := by
  obtain ⟨s₂, hpast, hquery⟩ := h.append_inv
  obtain ⟨s₁, -, hset⟩ := hpast.append_inv
  obtain _ | ⟨hset, hkeep⟩ := hset
  obtain _ | ⟨hquery, -⟩ := hquery
  have hwritten := hset.2 k v rfl
  have hkept := hkeep.frame (g := k.get)
    (fun hstep hl => hstep.1.obedient k hl.1 hl.2.1 hl.2.2) hmid
  rcases (Settings.query_of_truthful (k := .setting k) hquery.1).2 with ⟨code, hcode⟩ | hreply
  · exact absurd hcode (hr code)
  · rw [hreply, Reading.reply, Reading.get, hkept, hwritten]

section

attribute [local instance] Target.host

end

end Rylr998
