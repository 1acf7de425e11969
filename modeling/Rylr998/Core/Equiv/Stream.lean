import Rylr998.Core.Equiv.Ledger
import Rylr998.Core.Equiv.OneLine
import Rylr998.Core.Equiv.Wire
import Rylr998.Lib.PrefixCode

/-!
# Telling the commands apart

The radio sees one stream of bytes. As long as no password holds a terminator, the stream says which
commands it consists of: what comes first tells the kind of a command, the numbers end where their
delimiter stands, and a payload is as long as its length field says (`wire_isPrefixCode`). So the
bytes that a driver has handed out determine the commands that it has accepted
(`commands_told_apart`).
-/

namespace Rylr998

open Coding

/-! ### The kind of a command -/

/-- The kind of a command: its fields do not count. -/
def Command.kind : Command → Command
  | .setAddress _ => .setAddress 0
  | .setNetworkId _ => .setNetworkId 0
  | .setBand _ => .setBand 0
  | .setCpin _ => .setCpin []
  | .setParameters _ => .setParameters ⟨0, 0, 0, 0⟩
  | .send _ _ => .send 0 []
  | cmd => cmd

/-- The kinds. -/
def Command.kinds : List Command :=
  [.ping, .getAddress, .setAddress 0, .getNetworkId, .setNetworkId 0, .getBand, .setBand 0,
    .getCpin, .setCpin [], .getParameters, .setParameters ⟨0, 0, 0, 0⟩, .getCrfop, .getUid,
    .getVersion, .factoryReset, .send 0 []]

/-- What tells the kind of a command: what stands before its fields, or all of the line. -/
def Command.head (cmd : Command) : List UInt8 :=
  if cmd.numbers = [] ∧ cmd.raw = [] then wire cmd else cmd.literal

theorem Command.kind_mem (cmd : Command) : cmd.kind ∈ kinds := by
  cases cmd <;> simp [kind, kinds]

theorem Command.head_kind (cmd : Command) : cmd.kind.head = cmd.head := by
  cases cmd <;> rfl

theorem Command.head_prefix (cmd : Command) : cmd.head <+: wire cmd := by
  unfold head
  split_ifs
  · exact List.prefix_refl _
  · rw [wire_eq_wireForm, wireForm, List.append_assoc]
    exact List.prefix_append _ _

/-- No head begins another one. -/
theorem Command.head_inj : ∀ k ∈ kinds, ∀ k' ∈ kinds, k.head <+: k'.head → k = k' := by
  decide +kernel

theorem kind_eq_of_wire {cmd cmd' : Command} {s t : List UInt8}
    (h : wire cmd ++ s = wire cmd' ++ t) : cmd.kind = cmd'.kind := by
  have hpre : cmd.head <+: wire cmd ++ s := cmd.head_prefix.trans (List.prefix_append _ _)
  have hpre' : cmd'.head <+: wire cmd ++ s :=
    h ▸ cmd'.head_prefix.trans (List.prefix_append _ _)
  rw [← cmd.head_kind] at hpre
  rw [← cmd'.head_kind] at hpre'
  rcases List.prefix_or_prefix_of_prefix hpre hpre' with hle | hle
  · exact Command.head_inj _ cmd.kind_mem _ cmd'.kind_mem hle
  · exact (Command.head_inj _ cmd'.kind_mem _ cmd.kind_mem hle).symm

/-! ### The fields -/

section

variable {α : Type} [Scalar α] {a b : α} {s t : List UInt8}

theorem numeral_inj (h : numeral a = numeral b) : a = b := by
  have ha := parseBytes_eq_ok_iff.mpr (denotes_numeral a)
  rw [h] at ha
  exact (Except.ok.inj (ha.symm.trans (parseBytes_eq_ok_iff.mpr (denotes_numeral b))))

/-- A number ends at the terminator. -/
theorem numeral_crlf_inj (h : numeral a ++ (utf8 "\r\n" ++ s) = numeral b ++ (utf8 "\r\n" ++ t)) :
    a = b ∧ s = t := by
  obtain ⟨hnum, hrest⟩ := crlf.line_unique (cr_not_mem_numeral a) (cr_not_mem_numeral b) h
  exact ⟨numeral_inj hnum, hrest⟩

/-- A number ends at the comma. -/
theorem numeral_comma_inj (h : numeral a ++ (utf8 "," ++ s) = numeral b ++ (utf8 "," ++ t)) :
    a = b ∧ s = t := by
  have ha := field_append (denotes_numeral a).comma_not_mem s
  rw [show numeral a ++ comma :: s = _ from h] at ha
  obtain ⟨hnum, hrest⟩ := Prod.mk.inj
    (Option.some.inj (ha.symm.trans (field_append (denotes_numeral b).comma_not_mem t)))
  exact ⟨numeral_inj hnum, hrest⟩

end

/-- What is in front of the first terminator holds none. -/
theorem eq_nil_of_crlf {a s t : List UInt8} (ha : ¬ [cr, lf] <:+: a)
    (h : cr :: lf :: s = a ++ cr :: lf :: t) : a = [] := by
  match a with
  | [] => rfl
  | [b] => cases h
  | b :: b' :: a =>
    obtain ⟨rfl, hrest⟩ := List.cons.inj h
    obtain ⟨rfl, -⟩ := List.cons.inj hrest
    exact absurd ⟨[], a, rfl⟩ ha

/-- A password without a terminator ends at the terminator. -/
theorem password_crlf_inj {p q s t : List UInt8} (hp : ¬ [cr, lf] <:+: p) (hq : ¬ [cr, lf] <:+: q)
    (h : p ++ (utf8 "\r\n" ++ s) = q ++ (utf8 "\r\n" ++ t)) : p = q ∧ s = t := by
  have hpq : p = q := by
    rcases List.append_eq_append_iff.mp h with ⟨a, rfl, ha⟩ | ⟨a, rfl, ha⟩
    · have hnil := eq_nil_of_crlf (fun hin => hq (hin.trans (List.suffix_append p a).isInfix)) ha
      rw [hnil, List.append_nil]
    · have hnil := eq_nil_of_crlf (fun hin => hp (hin.trans (List.suffix_append q a).isInfix)) ha
      rw [hnil, List.append_nil]
  subst hpq
  exact ⟨rfl, List.append_cancel_left (List.append_cancel_left h)⟩

/-- A payload is as long as its length field says. -/
theorem length_lt_of_fits {toAddr : UInt16} {data : List UInt8}
    (h : (wire (.send toAddr data)).length ≤ txBuf) : data.length < 65536 := by
  have hle : data.length ≤ (wire (.send toAddr data)).length := by
    simp only [wire, wireBody, List.length_append]
    omega
  exact (hle.trans h).trans_lt (by decide)

/-- **Commands can be told apart.** The lines of commands that fit into `tx` and hold no password
with a terminator are a prefix code. -/
theorem wire_isPrefixCode :
    IsPrefixCode wire fun cmd => (wire cmd).length ≤ txBuf ∧ ¬ cmd.Splits := by
  rintro cmd cmd' s t ⟨hfit, hsplits⟩ ⟨hfit', hsplits'⟩ h
  -- the head settles the kind, and what is left are the fields of two commands of one kind
  have hkind := kind_eq_of_wire h
  cases cmd with
  | setAddress n =>
    cases cmd' with
    | setAddress n' =>
      simp only [wire, wireBody, List.append_assoc] at h
      obtain ⟨rfl, hrest⟩ := numeral_crlf_inj (List.append_cancel_left h)
      exact ⟨rfl, hrest⟩
    | _ => cases hkind
  | setNetworkId n =>
    cases cmd' with
    | setNetworkId n' =>
      simp only [wire, wireBody, List.append_assoc] at h
      obtain ⟨rfl, hrest⟩ := numeral_crlf_inj (List.append_cancel_left h)
      exact ⟨rfl, hrest⟩
    | _ => cases hkind
  | setBand hz =>
    cases cmd' with
    | setBand hz' =>
      simp only [wire, wireBody, List.append_assoc] at h
      obtain ⟨rfl, hrest⟩ := numeral_crlf_inj (List.append_cancel_left h)
      exact ⟨rfl, hrest⟩
    | _ => cases hkind
  | setCpin pw =>
    cases cmd' with
    | setCpin pw' =>
      -- a password has no length field: only its terminator ends it
      simp only [wire, wireBody, List.append_assoc] at h
      obtain ⟨rfl, hrest⟩ := password_crlf_inj (fun hin => hsplits ⟨pw, rfl, hin⟩)
        (fun hin => hsplits' ⟨pw', rfl, hin⟩) (List.append_cancel_left h)
      exact ⟨rfl, hrest⟩
    | _ => cases hkind
  | setParameters p =>
    cases cmd' with
    | setParameters p' =>
      simp only [wire, wireBody, List.append_assoc] at h
      obtain ⟨hsf, hrest⟩ := numeral_comma_inj (List.append_cancel_left h)
      obtain ⟨hbw, hrest⟩ := numeral_comma_inj hrest
      obtain ⟨hcr, hrest⟩ := numeral_comma_inj hrest
      obtain ⟨hpreamble, hrest⟩ := numeral_crlf_inj hrest
      exact ⟨congrArg _ (RfParams.ext hsf hbw hcr hpreamble), hrest⟩
    | _ => cases hkind
  | send toAddr data =>
    cases cmd' with
    | send toAddr' data' =>
      simp only [wire, wireBody, List.append_assoc] at h
      obtain ⟨rfl, hrest⟩ := numeral_comma_inj (List.append_cancel_left h)
      obtain ⟨hlen, hrest⟩ := numeral_comma_inj hrest
      -- `data.len() as u16` does not wrap, since the line fits into `tx`
      have hlen : data.length = data'.length := by
        have hmod := congrArg UInt16.toNat hlen
        rwa [UInt16.toNat_ofNat', UInt16.toNat_ofNat', Nat.mod_eq_of_lt (length_lt_of_fits hfit),
          Nat.mod_eq_of_lt (length_lt_of_fits hfit')] at hmod
      obtain ⟨rfl, hrest⟩ := List.append_inj hrest hlen
      exact ⟨rfl, List.append_cancel_left (List.append_cancel_left hrest)⟩
    | _ => cases hkind
  | ping | getAddress | getNetworkId | getBand | getCpin | getParameters | getCrfop | getUid
  | getVersion | factoryReset =>
    -- without fields the head is the whole line
    cases cmd' <;> first | exact ⟨rfl, List.append_cancel_left h⟩ | cases hkind

/-! ### What a driver has handed out -/

section

variable [Target] {ops : List Op} {calls : List Call} {d : Driver}

theorem fits_of_accepted (h : Runs ops calls d) :
    ∀ cmd ∈ accepted calls, (wire cmd).length ≤ txBuf := by
  refine Component.run_induction (P := fun _ calls _ =>
    ∀ cmd ∈ accepted calls, (wire cmd).length ≤ txBuf) (List.forall_mem_nil _) ?_ ops calls d h
  intro ops calls d op c d' hruns hfits hstep
  rw [accepted_append, accepted_singleton]
  refine List.forall_mem_append.mpr ⟨hfits, ?_⟩
  cases Driver.step_spec (Runs.inv hruns) hstep with
  | accept cmd hfit =>
    exact List.forall_mem_singleton.mpr ((Nat.le_add_left _ _).trans hfit)
  | lines o =>
    rw [accepted?_pollOf]
    exact List.forall_mem_nil _
  | busy | refuse | push | overflow | needTx | ack | sent => exact List.forall_mem_nil _

/-- What has been handed out, and what has not, are the lines of the accepted commands. -/
theorem handedOut_eq (h : Runs ops calls d) :
    handedOut calls ++ d.tx.data.drop d.txInFlight = (accepted calls).flatMap wire := by
  obtain ⟨removed, hnoted⟩ : ∃ removed,
      Component.run (Component.noted Driver.step removedNote) (.new, []) ops =
        .ok (calls, d, removed) := Component.exists_run_noted h []
  have hbal := balanced_of_run hnoted
  rw [hbal.handed, List.append_assoc, List.take_append_drop, hbal.total]
  exact List.flatMap_congr fun cmd hcmd => encoding_eq (fits_of_accepted h cmd hcmd)

/-- **The bytes determine the commands.** When all that one driver has to send has been handed out,
and it begins what another driver has handed out, then its accepted commands begin those of the
other one, as long as no password holds a terminator. -/
theorem commands_told_apart {ops' : List Op} {calls' : List Call} {d' : Driver}
    (h : Runs ops calls d) (h' : Runs ops' calls' d') (hsent : d.tx.len ≤ d.txInFlight)
    (hsplits : ∀ cmd ∈ accepted calls, ¬ cmd.Splits)
    (hsplits' : ∀ cmd ∈ accepted calls', ¬ cmd.Splits)
    (hpre : handedOut calls <+: handedOut calls') : accepted calls <+: accepted calls' := by
  have hall := handedOut_eq h
  rw [List.drop_eq_nil_of_le hsent, List.append_nil] at hall
  have hbegins : (accepted calls).flatMap wire <+: (accepted calls').flatMap wire := by
    rw [← hall, ← handedOut_eq h']
    exact hpre.trans (List.prefix_append _ _)
  exact wire_isPrefixCode.prefix_of_flatMap wire_ne_nil
    (fun cmd hcmd => ⟨fits_of_accepted h cmd hcmd, hsplits cmd hcmd⟩)
    (fun cmd hcmd => ⟨fits_of_accepted h' cmd hcmd, hsplits' cmd hcmd⟩) hbegins

/-- With a terminator inside, a password looks like two commands. -/
example : wire (.setCpin (utf8 "1\r\nAT")) = wire (.setCpin (utf8 "1")) ++ wire .ping := by
  decide

end

section

attribute [local instance] Target.host

/-- A ping, and the same ping with a query behind it. -/
theorem commands_told_apart_ping : ∃ calls calls' : List Call, accepted calls = [.ping] ∧
    accepted calls' = [.ping, .getAddress] ∧ accepted calls <+: accepted calls' := by
  let ops : List Op := [.submit .ping, .poll]
  let ops' : List Op := [.submit .ping, .poll, .ackTx 4, .pushRx (utf8 "+OK\r\n"), .poll,
    .submit .getAddress, .poll]
  let d : Driver := { Driver.new.accept .ping (by decide) with txInFlight := 4 }
  let calls : List Call := [.submit .ping (.ok ()), .poll (.needTx (wire .ping))]
  have h : Runs ops calls d := by
    unfold Runs
    decide +kernel
  have hrun' : (Component.run Driver.step .new ops').map (fun q => (accepted q.1, handedOut q.1)) =
      .ok ([.ping, .getAddress], wire .ping ++ wire .getAddress) := by
    decide +kernel
  obtain ⟨⟨calls', d'⟩, h', hq⟩ := Except.map_eq_ok.mp hrun'
  obtain ⟨haccepted, hhanded⟩ := Prod.mk.inj hq
  refine ⟨calls, calls', rfl, haccepted, commands_told_apart h h' (by decide) (by decide)
    (by rw [haccepted]; decide) ?_⟩
  rw [hhanded]
  exact List.prefix_append _ _

end

end Rylr998
