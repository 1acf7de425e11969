import Rylr998.Core.Equiv.OneLine
import Rylr998.Core.Equiv.Settings
import Rylr998.Host.Equiv.AtOnce
import Rylr998.System.Settings
import Rylr998.Tool.Equiv.Session

/-!
# The settings that `provision` sets

The settings, each with the methods that set it and ask for it, the name by which `provision` calls
it, and when `provision` takes a value for the one asked for. A radio can report every value but a
malformed password (`Setting.Reportable`).
-/

namespace Rylr998

namespace Reading

variable {α : Type}

/-- The method that asks for it. -/
def method : Reading α → Tool.CommandMethod α
  | setting .address => .address
  | setting .networkId => .networkId
  | setting .band => .band
  | setting .cpin => .cpin
  | setting .parameters => .parameters
  | crfop => .crfop
  | uid => .uid
  | version => .version

theorem method_command (k : Reading α) : k.method.command = k.query := by
  rcases k with (_ | _ | _ | _ | _) | _ | _ | _ <;> rfl

theorem method_want_reply (k : Reading α) (v : α) : k.method.want (k.reply v) = some (.ok v) := by
  rcases k with (_ | _ | _ | _ | _) | _ | _ | _ <;> rfl

theorem method_want_err (k : Reading α) (code : UInt8) :
    k.method.want (.err code) = some (.error (.radio code)) := by
  rcases k with (_ | _ | _ | _ | _) | _ | _ | _ <;> rfl

end Reading

namespace Setting

variable {α : Type}

/-- The method that sets it. -/
def setMethod : Setting α → α → Tool.CommandMethod Unit
  | address, v => .setAddress v
  | networkId, v => .setNetworkId v
  | band, v => .setBand v
  | cpin, v => .setCpin (utf8 v)
  | parameters, v => .setParameters v

/-- The name by which `provision` calls it. -/
def field : Setting α → String
  | address => "address"
  | networkId => "network_id"
  | band => "band"
  | cpin => "cpin"
  | parameters => "parameters"

/-- When `provision` takes a value for the one it was asked for. -/
def same : Setting α → α → α → Bool
  | address, a, v => a == v
  | networkId, a, v => a == v
  | band, a, v => a == v
  | cpin, a, v => Tool.eqIgnoreAsciiCase a v
  | parameters, a, v => a == v

theorem same_self (k : Setting α) (v : α) : k.same v v = true := by
  cases k with
  | cpin => exact decide_eq_true rfl
  | address | networkId | band | parameters => exact beq_self_eq_true v

theorem setMethod_command (k : Setting α) (v : α) : (k.setMethod v).command = k.setter v := by
  cases k <;> rfl

theorem setMethod_want (k : Setting α) (v : α) : (k.setMethod v).want = Std.waitOk := by
  cases k <;> rfl

theorem field_injective {β : Type} {k : Setting α} {k' : Setting β} (h : k.field = k'.field) :
    (⟨α, k⟩ : Σ γ : Type, Setting γ) = ⟨β, k'⟩ := by
  cases k <;> cases k' <;> first | rfl | exact absurd h (by decide)

theorem field_of_setter {β : Type} {k : Setting α} {k' : Setting β} {v : α} {v' : β}
    (h : k.setter v = k'.setter v') : k.field = k'.field := by
  cases k <;> cases k' <;> first | rfl | cases h

theorem setter_ne_query {β : Type} {k : Setting α} {k' : Setting β} {v : α} :
    k.setter v ≠ k'.query := by
  cases k <;> cases k' <;> nofun

theorem query_ne_factoryReset {k : Setting α} : k.query ≠ .factoryReset := by
  cases k <;> nofun

theorem setter_ne_factoryReset {k : Setting α} {v : α} : k.setter v ≠ .factoryReset := by
  cases k <;> nofun

theorem get_put_of_ne {β : Type} {k : Setting α} {k' : Setting β} (h : k'.field ≠ k.field)
    (s : Settings) (v : α) : k'.get (k.put s v) = k'.get s := by
  cases k <;> cases k' <;> first | rfl | exact absurd rfl h

end Setting

/-! ### What a radio can report -/

theorem length_numeral_le {α : Type} [Scalar α] (hlo : -10 ^ 10 < Scalar.lo α)
    (hhi : Scalar.hi α < 10 ^ 10) (a : α) : (numeral a).length ≤ 11 := by
  obtain ⟨hle, hge⟩ := Scalar.toInt_mem a
  refine Decimal.length_textInt_le (by decide) ?_
  omega

/-- A password that a radio reports as it is. -/
def IsPassword (s : String) : Prop :=
  (utf8 s).length = 8 ∧ (utf8 s).all isAsciiHexdigit = true ∧ (utf8 s).all (· == 48) = false

namespace Setting

variable {α : Type}

/-- A value that a radio can report. -/
def Reportable : Setting α → α → Prop
  | cpin, v => v = "" ∨ IsPassword v
  | _, _ => True

theorem IsPassword.cr_not_mem {s : String} (h : IsPassword s) : cr ∉ utf8 s :=
  fun hcr => absurd (List.all_eq_true.mp h.2.1 cr hcr) (by decide)

/-- A setter of such a value is short and has no terminator in it. -/
theorem wireBody_setter {k : Setting α} {v : α} (h : k.Reportable v) :
    cr ∉ wireBody (k.setter v) ∧ (wireBody (k.setter v)).length ≤ 100 := by
  have hbyte := length_numeral_le (α := UInt8) (by decide) (by decide)
  cases k with
  | address =>
    have hlen := length_numeral_le (by decide) (by decide) v
    refine ⟨cr_not_mem_append_numeral (by decide) v, ?_⟩
    rw [setter, wireBody, List.length_append, show (utf8 "AT+ADDRESS=").length = 11 by decide]
    omega
  | networkId =>
    have hlen := hbyte v
    refine ⟨cr_not_mem_append_numeral (by decide) v, ?_⟩
    rw [setter, wireBody, List.length_append, show (utf8 "AT+NETWORKID=").length = 13 by decide]
    omega
  | band =>
    have hlen := length_numeral_le (by decide) (by decide) v
    refine ⟨cr_not_mem_append_numeral (by decide) v, ?_⟩
    rw [setter, wireBody, List.length_append, show (utf8 "AT+BAND=").length = 8 by decide]
    omega
  | cpin =>
    have hpw : cr ∉ utf8 v ∧ (utf8 v).length ≤ 8 := by
      rcases h with rfl | h
      · exact ⟨by decide, by decide⟩
      · exact ⟨IsPassword.cr_not_mem h, Nat.le_of_eq h.1⟩
    rw [setter, wireBody, List.mem_append, not_or, List.length_append,
      show (utf8 "AT+CPIN=").length = 8 by decide]
    exact ⟨⟨by decide, hpw.1⟩, by omega⟩
  | parameters =>
    have hsf := hbyte v.sf
    have hbw := hbyte v.bw
    have hcr := hbyte v.cr
    have hpreamble := hbyte v.preamble
    simp only [setter, wireBody, List.mem_append, not_or, List.length_append, cr_not_mem_numeral,
      not_false_eq_true, true_and, and_true, show (utf8 ",").length = 1 by decide,
      show (utf8 "AT+PARAMETER=").length = 13 by decide]
    exact ⟨by decide, by omega⟩

theorem atOnce_setter {k : Setting α} {v : α} (h : k.Reportable v) :
    AtOnce (k.setter v) (utf8 "+OK") .ok where
  single := by
    rintro ⟨pw, hcmd, hin⟩
    have hcr := (wireBody_setter h).1
    rw [hcmd] at hcr
    exact hcr (List.mem_append_right _ (hin.subset List.mem_cons_self))
  fits := by
    have hlen := (wireBody_setter h).2
    rw [wire, List.length_append, show (utf8 "\r\n").length = 2 by decide]
    exact (Nat.add_le_add_right hlen 2).trans (by decide)
  reply := by cases k <;> exact .ok
  notOk := fun hreset => by cases k <;> cases hreset
  oneLine := by decide
  short := by decide

/-- A radio can answer a query with such a value: in the words of the setter, or, when there is no
password, with `No Password!`. -/
theorem exists_atOnce_query {k : Setting α} {v : α} (h : k.Reportable v) :
    ∃ line, AtOnce k.query line (k.reply v) := by
  have hsingle : ¬ k.query.Splits := Settings.not_splits_query (.setting k)
  have hfits : (wire k.query).length ≤ txBuf := by cases k <;> decide
  have hsetting {line : List UInt8} (hbody : wireBody (k.setter v) = utf8 "AT" ++ line)
      (hreply : IsReply k.query.awaitKind line (k.reply v)) :
      ∃ line, AtOnce k.query line (k.reply v) := by
    obtain ⟨hcr, hlen⟩ := wireBody_setter h
    rw [hbody] at hcr hlen
    refine ⟨line, hsingle, hfits, hreply, by cases k <;> nofun, ?_, ?_⟩
    · exact fun h => hcr (List.mem_append_right _ h)
    · rw [List.length_append] at hlen
      omega
  cases k with
  | address => exact hsetting rfl (.query (.address (denotes_numeral v)))
  | networkId => exact hsetting rfl (.query (.networkId (denotes_numeral v)))
  | band => exact hsetting rfl (.query (.band (denotes_numeral v)))
  | parameters =>
    exact hsetting rfl (.query (.parameters (denotes_numeral v.sf) (denotes_numeral v.bw)
      (denotes_numeral v.cr) (denotes_numeral v.preamble)))
  | cpin =>
    rcases h with rfl | ⟨hlen, hhex, hzero⟩
    · exact ⟨_, hsingle, hfits, .query .noPassword, nofun, by decide, by decide⟩
    · exact hsetting rfl (.query (.cpin v hlen hhex hzero))

/-- A password that is reported is empty or well formed. -/
theorem reportable_of_isReply {kind : AwaitKind} {line : List UInt8} {v : String}
    (h : IsReply kind line (.cpin v)) : v = "" ∨ IsPassword v := by
  cases h with
  | query hvalue =>
    cases hvalue with
    | noPassword => exact Or.inl rfl
    | cpin _ hlen hhex hzero => exact Or.inr ⟨hlen, hhex, hzero⟩

end Setting

namespace Tool

/-- What `provision` is asked for. -/
structure Request where
  address : UInt16
  net : UInt8
  cpin : Option String
  band : Option UInt32
  params : Option RfParams
  deriving DecidableEq

namespace Request

/-- The value that is asked for. -/
def asks (q : Request) {α : Type} : Setting α → Option α
  | .address => some q.address
  | .networkId => some q.net
  | .cpin => q.cpin
  | .band => q.band
  | .parameters => q.params

/-- The values asked for can be reported. -/
def Reportable (q : Request) : Prop :=
  ∀ {α : Type} (k : Setting α) (v : α), q.asks k = some v → k.Reportable v

end Request

/-! ### The methods and a radio that tells the truth -/

section

open Interact

variable [Target] {α : Type}

theorem set_triple (k : Setting α) (v : α) (R : List Line → Settings → Prop) :
    Triple (environment (Device.plain Settings.Truthful)) (Ready R) (command (k.setMethod v))
      (Returned fun _ => Ready fun lines s' => ∃ s v', R lines s ∧ s' = k.put s v') := by
  refine (command_triple_ok (k.setMethod v) R).weaken id ?_
  intro r p e h
  cases h with
  | ok h =>
    obtain ⟨hsettled, s, r, hR, ⟨hdev, hsplits⟩, hwant⟩ := h
    rw [k.setMethod_command] at hdev hsplits
    rw [k.setMethod_want] at hwant
    rcases Settings.setter_of_truthful hdev hsplits with ⟨⟨code, rfl⟩, -⟩ | ⟨rfl, v', hs⟩
    · cases hwant
    · exact .ok ⟨hsettled, s, v', hR, hs⟩
  | failed => exact .failed

theorem get_triple (k : Reading α) (R : List Line → Settings → Prop) :
    Triple (environment (Device.plain Settings.Truthful)) (Ready R) (command k.method)
      (Returned fun a => Ready fun lines s => R lines s ∧ a = k.get s) := by
  refine (command_triple_ok k.method R).weaken id ?_
  intro r p e h
  cases h with
  | ok h =>
    obtain ⟨hsettled, s, r, hR, ⟨hdev, -⟩, hwant⟩ := h
    rw [k.method_command] at hdev
    obtain ⟨hs, ⟨code, rfl⟩ | rfl⟩ := Settings.query_of_truthful hdev
    · rw [k.method_want_err] at hwant
      cases hwant
    · rw [k.method_want_reply] at hwant
      cases hwant
      exact .ok ⟨hsettled, hs ▸ hR, congrArg k.get hs.symm⟩
  | failed => exact .failed

end

end Tool

end Rylr998
