import Rylr998.Core.Equiv.Driver
import Rylr998.Core.Equiv.Settings

/-!
# One command, one line

A command is written as one `AT` line, and the reply the driver waits for is the reply to that line.
The numbers of a command hold no terminator; a password is written as it is. So a command other
than `Command.send` is one line exactly when it is no password with a terminator inside
(`one_line_iff`); with one, the radio sees a second command.
-/

namespace Rylr998

/-- `bytes` start with `AT` and end with `\r\n`, which occurs nowhere else. -/
def OneLine (bytes : List UInt8) : Prop :=
  utf8 "AT" <+: bytes ∧ [cr, lf] <:+ bytes ∧
    ∀ pre post, bytes = pre ++ cr :: lf :: post → post = []

/-- The command is a password with a terminator inside. -/
def Command.Splits (cmd : Command) : Prop := ∃ pw, cmd = .setCpin pw ∧ [cr, lf] <:+: pw

instance : DecidablePred Command.Splits
  | .setCpin pw => decidable_of_iff ([cr, lf] <:+: pw) <| by
    constructor
    · exact fun h => ⟨pw, rfl, h⟩
    · rintro ⟨pw', hcmd, h⟩
      cases hcmd
      exact h
  | .ping | .getAddress | .setAddress _ | .getNetworkId | .setNetworkId _ | .getBand | .setBand _
  | .getCpin | .getParameters | .setParameters _ | .getCrfop | .getUid | .getVersion | .factoryReset
  | .send _ _ => isFalse <| by
    rintro ⟨pw, hcmd, -⟩
    cases hcmd

theorem infix_append_iff {p t : List UInt8} (hp : cr ∉ p) :
    [cr, lf] <:+: p ++ t ↔ [cr, lf] <:+: t := by
  constructor
  · rintro ⟨pre, post, h⟩
    rw [List.append_assoc] at h
    rcases List.append_eq_append_iff.mp h with ⟨a, rfl, ha⟩ | ⟨c, -, rfl⟩
    · cases a with
      | nil => exact ⟨[], post, by simpa using ha⟩
      | cons x a =>
        -- the terminator would begin inside `p`
        obtain ⟨rfl, -⟩ := List.cons.inj ha
        exact absurd (List.mem_append_right _ List.mem_cons_self) hp
    · exact ⟨c, post, List.append_assoc _ _ _⟩
  · intro h
    exact h.trans (List.suffix_append p t).isInfix

/-- The terminator behind `body` is the only one when `body` holds none. -/
theorem oneLine_iff {body : List UInt8} (hat : utf8 "AT" <+: body) :
    OneLine (body ++ [cr, lf]) ↔ ¬ [cr, lf] <:+: body := by
  constructor
  · rintro ⟨-, -, honly⟩ ⟨pre, post, rfl⟩
    have hpost := honly pre (post ++ [cr, lf]) (by simp)
    simp at hpost
  · intro hbody
    refine ⟨hat.trans (List.prefix_append _ _), List.suffix_append _ _, ?_⟩
    intro pre post h
    rcases List.eq_nil_or_concat post with rfl | ⟨post, b, rfl⟩
    · rfl
    -- the last byte is that of the terminator, the others are in `body` or straddle its end
    exfalso
    rw [List.concat_eq_append] at h
    have hlast : body ++ [cr] = pre ++ cr :: lf :: post := by
      have h' : (body ++ [cr]) ++ [lf] = (pre ++ cr :: lf :: post) ++ [b] := by simpa using h
      exact (List.append_inj' h' rfl).1
    rcases List.eq_nil_or_concat post with rfl | ⟨post, b', rfl⟩
    · have h' : body ++ [cr] = (pre ++ [cr]) ++ [lf] := by simpa using hlast
      have hlf : [cr] = [lf] := (List.append_inj' h' rfl).2
      exact absurd hlf (by decide)
    · have h' : body ++ [cr] = (pre ++ cr :: lf :: post) ++ [b'] := by simpa using hlast
      have heq : body = pre ++ cr :: lf :: post := (List.append_inj' h' rfl).1
      exact hbody ⟨pre, post, by rw [heq]; simp⟩

theorem cr_not_mem_numeral {α : Type} [Scalar α] (a : α) : cr ∉ numeral a :=
  (denotes_numeral a).cr_not_mem

theorem cr_not_mem_append_numeral {α : Type} [Scalar α] {p : List UInt8} (hp : cr ∉ p) (a : α) :
    cr ∉ p ++ numeral a := by
  rw [List.mem_append, not_or]
  exact ⟨hp, cr_not_mem_numeral a⟩

/-- Every command starts with `AT`. -/
theorem at_prefix_wireBody (cmd : Command) : utf8 "AT" <+: wireBody cmd := by
  cases cmd with
  | setAddress n => exact ⟨utf8 "+ADDRESS=" ++ numeral n, rfl⟩
  | setNetworkId n => exact ⟨utf8 "+NETWORKID=" ++ numeral n, rfl⟩
  | setBand hz => exact ⟨utf8 "+BAND=" ++ numeral hz, rfl⟩
  | setParameters p => exact ⟨utf8 "+PARAMETER=" ++ _, rfl⟩
  | setCpin pw => exact ⟨utf8 "+CPIN=" ++ pw, rfl⟩
  | send toAddr data => exact ⟨utf8 "+SEND=" ++ _, rfl⟩
  | ping | getAddress | getNetworkId | getBand | getCpin | getParameters | getCrfop | getUid
  | getVersion | factoryReset => decide

/-- Only a password and a payload can hold a terminator. -/
theorem infix_wireBody_iff {cmd : Command} (hsend : ∀ toAddr data, cmd ≠ .send toAddr data) :
    [cr, lf] <:+: wireBody cmd ↔ cmd.Splits := by
  have hnone (h : cr ∉ wireBody cmd) (hpw : ∀ pw, cmd ≠ .setCpin pw) :
      [cr, lf] <:+: wireBody cmd ↔ cmd.Splits := by
    refine iff_of_false ?_ ?_
    · intro hin
      exact h (hin.subset List.mem_cons_self)
    · rintro ⟨pw, hcmd, -⟩
      exact hpw pw hcmd
  cases cmd with
  | send toAddr data => exact absurd rfl (hsend toAddr data)
  | setCpin pw =>
    rw [wireBody, infix_append_iff (by decide)]
    constructor
    · intro h
      exact ⟨pw, rfl, h⟩
    · rintro ⟨pw', hcmd, h⟩
      obtain rfl := Command.setCpin.inj hcmd
      exact h
  | setAddress n => exact hnone (cr_not_mem_append_numeral (by decide) n) (by simp)
  | setNetworkId n => exact hnone (cr_not_mem_append_numeral (by decide) n) (by simp)
  | setBand hz => exact hnone (cr_not_mem_append_numeral (by decide) hz) (by simp)
  | setParameters p =>
    have hcomma : cr ∉ utf8 "," := by decide
    refine hnone ?_ (by simp)
    rw [wireBody]
    simp only [List.mem_append, not_or]
    exact ⟨by decide, cr_not_mem_numeral p.sf, hcomma, cr_not_mem_numeral p.bw, hcomma,
      cr_not_mem_numeral p.cr, hcomma, cr_not_mem_numeral p.preamble⟩
  | ping | getAddress | getNetworkId | getBand | getCpin | getParameters | getCrfop | getUid
  | getVersion | factoryReset => exact hnone (by decide) (by simp)

theorem oneLine_wire_iff {cmd : Command} (hsend : ∀ toAddr data, cmd ≠ .send toAddr data) :
    OneLine (wire cmd) ↔ ¬ cmd.Splits := by
  rw [← infix_wireBody_iff hsend]
  exact oneLine_iff (at_prefix_wireBody cmd)

/-- **One command, one line.** What `encode` writes for a command other than `Command.send`, and so
what an accepted `submit` queues, is one line exactly when no password splits it. -/
theorem one_line_iff {cmd : Command} (hsend : ∀ toAddr data, cmd ≠ .send toAddr data) :
    (∀ buf n buf', encode cmd buf = .ok (.ok n, buf') →
      (OneLine (buf'.take n) ↔ ¬ cmd.Splits)) ∧
    ∀ d d' : Driver, d.submit cmd = .ok (.ok (), d') →
      ∃ bytes, d'.tx.data = d.tx.data ++ bytes ∧ (OneLine bytes ↔ ¬ cmd.Splits) := by
  constructor
  · intro buf n buf' h
    rw [take_of_encode h]
    exact oneLine_wire_iff hsend
  · intro d d' h
    obtain ⟨-, hfit, rfl⟩ := Driver.submit_ok_inv h
    exact ⟨wire cmd, rfl, oneLine_wire_iff hsend⟩

/-- The line that sets a password without a terminator inside. -/
theorem one_line_iff_cpin : OneLine (wire (.setCpin (utf8 "12345678"))) := by
  have hencode : encode (.setCpin (utf8 "12345678")) (List.replicate 18 0) =
      .ok (.ok 18, wire (.setCpin (utf8 "12345678"))) := by
    decide +kernel
  exact ((one_line_iff (by simp)).1 _ _ _ hencode).mpr (by decide)

/-- The password `1\r\nAT+RESET` resets the radio. -/
theorem not_one_line_cpin : ¬ ∀ cmd buf n buf', (∀ toAddr data, cmd ≠ Command.send toAddr data) →
    encode cmd buf = .ok (.ok n, buf') → OneLine (buf'.take n) := by
  intro hall
  have hencode : encode (.setCpin (utf8 "1\r\nAT+RESET")) (List.replicate 32 0) =
      .ok (.ok 21, utf8 "AT+CPIN=1\r\nAT+RESET\r\n" ++ List.replicate 11 0) := by
    decide +kernel
  have hone := (hall _ _ _ _ (by simp) hencode).2.2 (utf8 "AT+CPIN=1") (utf8 "AT+RESET\r\n")
    (by decide)
  exact absurd hone (by decide)

end Rylr998
