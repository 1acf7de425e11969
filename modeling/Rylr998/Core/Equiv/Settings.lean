import Rylr998.Core.Equiv.Decode
import Rylr998.Core.Equiv.Encode

/-!
# Settings read back

A radio that is asked for a setting reports it in the words of the command that set it. So the
encoder and the parser of the replies must agree: what `encode` writes for a setter, without `AT`
and the terminator, is parsed as the query response that carries the same value
(`settings_agree`). A password is read back exactly when it is 8 hex digits other than all `0`.
-/

namespace Rylr998

/-- The first `n` bytes of `buf` without the leading `AT` and the trailing `\r\n`. -/
def reported (buf : List UInt8) (n : Nat) : List UInt8 := (buf.take (n - 2)).drop 2

/-- The query response that carries the value of a setter. -/
def Command.setting? : Command → Option Response
  | .setAddress n => some (.address n)
  | .setNetworkId n => some (.networkId n)
  | .setBand hz => some (.band hz)
  | .setParameters p => some (.parameters p)
  | _ => none

/-- An encoding that succeeds has put the line of the command at the front of the buffer. -/
theorem encode_eq_ok {cmd : Command} {buf buf' : List UInt8} {n : Nat}
    (h : encode cmd buf = .ok (.ok n, buf')) :
    (wire cmd).length ≤ buf.length ∧ n = (wire cmd).length ∧
      buf' = wire cmd ++ buf.drop (wire cmd).length := by
  rcases Nat.lt_or_ge buf.length (wire cmd).length with hlt | hle
  · obtain ⟨buf₁, hbuf⟩ := encode_of_lt hlt
    cases hbuf.symm.trans h
  · obtain ⟨hn, rfl⟩ := Prod.mk.inj (Except.ok.inj ((encode_of_le hle).symm.trans h))
    exact ⟨hle, (Except.ok.inj hn).symm, rfl⟩

theorem take_of_encode {cmd : Command} {buf buf' : List UInt8} {n : Nat}
    (h : encode cmd buf = .ok (.ok n, buf')) : buf'.take n = wire cmd := by
  obtain ⟨-, rfl, rfl⟩ := encode_eq_ok h
  exact List.take_left

theorem reported_of_encode {cmd : Command} {buf buf' t : List UInt8} {n : Nat}
    (hbody : wireBody cmd = utf8 "AT" ++ t) (h : encode cmd buf = .ok (.ok n, buf')) :
    reported buf' n = t := by
  obtain ⟨-, rfl, rfl⟩ := encode_eq_ok h
  have hlen : (wire cmd).length - 2 = (utf8 "AT" ++ t).length := by
    have htwo : (utf8 "\r\n").length = 2 := by decide
    rw [wire, hbody, List.length_append, htwo, Nat.add_sub_cancel]
  have htake : (wire cmd ++ buf.drop (wire cmd).length).take ((wire cmd).length - 2) =
      utf8 "AT" ++ t := by
    rw [hlen, wire, hbody, List.append_assoc]
    exact List.take_left
  rw [reported, htake]
  rfl

/-- A setter is written in the words of the reply to its query. -/
theorem isReply_of_setting {cmd : Command} {r : Response} (h : cmd.setting? = some r) :
    ∃ key t, wireBody cmd = utf8 "AT" ++ (queryPrefix key ++ t) ∧
      IsReply (.query key) (queryPrefix key ++ t) r := by
  cases cmd with
  | setAddress n =>
    cases h
    exact ⟨.address, numeral n, rfl, .query (.address (denotes_numeral n))⟩
  | setNetworkId n =>
    cases h
    exact ⟨.networkId, numeral n, rfl, .query (.networkId (denotes_numeral n))⟩
  | setBand hz =>
    cases h
    exact ⟨.band, numeral hz, rfl, .query (.band (denotes_numeral hz))⟩
  | setParameters p =>
    cases h
    exact ⟨.parameters, _, rfl, .query (.parameters (denotes_numeral p.sf) (denotes_numeral p.bw)
      (denotes_numeral p.cr) (denotes_numeral p.preamble))⟩
  | ping | getAddress | getNetworkId | getBand | getCpin | setCpin | getParameters | getCrfop
  | getUid | getVersion | factoryReset | send => cases h

theorem isAsciiHexdigit_lt {b : UInt8} (h : isAsciiHexdigit b = true) : b.toNat < 128 := by
  have hb := of_decide_eq_true h
  simp only [UInt8.le_iff_toNat_le] at hb
  simp at hb
  omega

/-- A password is parsed as itself when it has 8 hex digits that are not all `0`. -/
theorem parseResponse_cpin_iff (pw : List UInt8) :
    (∃ s, utf8 s = pw ∧ parseResponse (Prefix.cpin ++ pw) = .ok (.cpin s)) ↔
      pw.length = 8 ∧ pw.all isAsciiHexdigit = true ∧ pw.all (· == 48) = false := by
  have hparse (s : String) : parseResponse (Prefix.cpin ++ pw) = .ok (.cpin s) ↔
      parseCpin pw = .ok s := by
    rw [show Prefix.cpin = queryPrefix .cpin from rfl, parseResponse_query, queryParser,
      Except.map_eq_ok]
    simp
  simp only [hparse, parseCpin_eq_ok]
  constructor
  · rintro ⟨s, rfl, ⟨hno, rfl⟩ | ⟨-, hpw⟩⟩
    · exact absurd hno (by decide)
    · exact hpw
  · rintro ⟨hlen, hhex, hzero⟩
    obtain ⟨s, hs⟩ := exists_utf8_of_ascii fun b hb =>
      isAsciiHexdigit_lt (List.all_eq_true.mp hhex b hb)
    have hpw := fromUtf8_eq_some_iff.mp hs
    exact ⟨s, hpw, Or.inr ⟨hpw, hlen, hhex, hzero⟩⟩

/-- **Settings are read back.** What is written for a setter parses as the response that carries its
value; for a password, exactly when it is well formed. -/
theorem settings_agree {cmd : Command} {buf buf' : List UInt8} {n : Nat}
    (h : encode cmd buf = .ok (.ok n, buf')) :
    (∀ r, cmd.setting? = some r → parseResponse (reported buf' n) = .ok r) ∧
      ∀ pw, cmd = .setCpin pw →
        ((∃ s, utf8 s = pw ∧ parseResponse (reported buf' n) = .ok (.cpin s)) ↔
          pw.length = 8 ∧ pw.all isAsciiHexdigit = true ∧ pw.all (· == 48) = false) := by
  constructor
  · intro r hr
    obtain ⟨key, t, hbody, hreply⟩ := isReply_of_setting hr
    rw [reported_of_encode hbody h]
    exact parseResponse_of_isReply hreply
  · rintro pw rfl
    have hbody : wireBody (.setCpin pw) = utf8 "AT" ++ (Prefix.cpin ++ pw) := rfl
    rw [reported_of_encode hbody h]
    exact parseResponse_cpin_iff pw

/-- A band is read back, and a password of zeros is not. -/
theorem settings_agree_band_cpin :
    parseResponse (reported (wire (.setBand 915000000)) 19) = .ok (.band 915000000) ∧
      ¬ ∃ s, utf8 s = utf8 "00000000" ∧
        parseResponse (reported (wire (.setCpin (utf8 "00000000"))) 18) = .ok (.cpin s) := by
  have hband : encode (.setBand 915000000) (List.replicate 19 0) =
      .ok (.ok 19, wire (.setBand 915000000)) := by
    decide +kernel
  have hcpin : encode (.setCpin (utf8 "00000000")) (List.replicate 18 0) =
      .ok (.ok 18, wire (.setCpin (utf8 "00000000"))) := by
    decide +kernel
  refine ⟨(settings_agree hband).1 _ rfl, ?_⟩
  intro hs
  have hpw := ((settings_agree hcpin).2 _ rfl).mp hs
  exact absurd hpw (by decide)

end Rylr998
