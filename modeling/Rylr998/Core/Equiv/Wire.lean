import Rylr998.Core.Equiv.Decode
import Rylr998.Core.Equiv.Encode

/-!
# The documented lines

The documentation writes a command line as a literal and fields with commas between them:
`AT+SEND=<to>,<len>,<data>`. `wireForm` is that line, and `encode_exact` says that `encode` writes
it, byte for byte, into every buffer that has room for it.

The radio finds the end of a payload with `<len>`, which is the length modulo 65536. `readSend` is
the radio's rule; it gives the payload back exactly when it is shorter than that
(`send_round_trip_iff`).
-/

namespace Rylr998

/-- What stands before the fields of a command. -/
def Command.literal : Command → List UInt8
  | .ping => utf8 "AT"
  | .getAddress => utf8 "AT+ADDRESS?"
  | .setAddress _ => utf8 "AT+ADDRESS="
  | .getNetworkId => utf8 "AT+NETWORKID?"
  | .setNetworkId _ => utf8 "AT+NETWORKID="
  | .getBand => utf8 "AT+BAND?"
  | .setBand _ => utf8 "AT+BAND="
  | .getCpin => utf8 "AT+CPIN?"
  | .setCpin _ => utf8 "AT+CPIN="
  | .getParameters => utf8 "AT+PARAMETER?"
  | .setParameters _ => utf8 "AT+PARAMETER="
  | .getCrfop => utf8 "AT+CRFOP?"
  | .getUid => utf8 "AT+UID?"
  | .getVersion => utf8 "AT+VER?"
  | .factoryReset => utf8 "AT+RESET"
  | .send _ _ => utf8 "AT+SEND="

/-- The numbers among the fields of a command. -/
def Command.numbers : Command → List Nat
  | .setAddress n => [n.toNat]
  | .setNetworkId n => [n.toNat]
  | .setBand hz => [hz.toNat]
  | .setParameters p => [p.sf.toNat, p.bw.toNat, p.cr.toNat, p.preamble.toNat]
  | .send toAddr data => [toAddr.toNat, data.length % 65536]
  | _ => []

/-- The field of a command that is written as it is. -/
def Command.raw : Command → List (List UInt8)
  | .setCpin pw => [pw]
  | .send _ data => [data]
  | _ => []

/-- The documented line of a command. -/
def wireForm (cmd : Command) : List UInt8 :=
  cmd.literal ++ [comma].intercalate (cmd.numbers.map Decimal.text ++ cmd.raw) ++ utf8 "\r\n"

theorem numeral_uint8 (n : UInt8) : numeral n = Decimal.text n.toNat := numeral_of_nonneg rfl

theorem numeral_uint16 (n : UInt16) : numeral n = Decimal.text n.toNat := numeral_of_nonneg rfl

theorem numeral_uint32 (n : UInt32) : numeral n = Decimal.text n.toNat := numeral_of_nonneg rfl

/-- The length field is the length modulo 65536. -/
theorem numeral_length (data : List UInt8) :
    numeral (UInt16.ofNat data.length) = Decimal.text (data.length % 65536) := by
  rw [numeral_uint16, UInt16.toNat_ofNat']

theorem wire_eq_wireForm (cmd : Command) : wire cmd = wireForm cmd := by
  have hcomma : utf8 "," = [comma] := by decide
  cases cmd with
  | setAddress n | setNetworkId n | setBand n | setParameters p | setCpin pw =>
    simp [wire, wireForm, wireBody, Command.literal, Command.numbers, Command.raw, numeral_uint8,
      numeral_uint16, numeral_uint32, hcomma, List.intercalate]
  | send toAddr data =>
    simp [wire, wireForm, wireBody, Command.literal, Command.numbers, Command.raw, numeral_uint16,
      hcomma, List.intercalate]
  | _ => rfl

/-- **What `encode` writes.** When the documented line fits, `encode` writes it at the front of the
buffer and returns its length; when it does not fit, `encode` returns `TxOverflow`. It panics for no
command and no buffer. The numbers of the line have no leading zeros. -/
theorem encode_exact (cmd : Command) (buf : List UInt8) :
    ((wireForm cmd).length ≤ buf.length →
        encode cmd buf =
          .ok (.ok (wireForm cmd).length, wireForm cmd ++ buf.drop (wireForm cmd).length)) ∧
      (buf.length < (wireForm cmd).length →
        ∃ buf', encode cmd buf = .ok (.error .txOverflow, buf')) ∧
      ∀ n ∈ cmd.numbers, ∀ ds, Decimal.Canonical ds n ↔ ds = Decimal.text n := by
  rw [← wire_eq_wireForm]
  exact ⟨encode_of_le, encode_of_lt, fun n _ ds => Decimal.canonical_iff⟩

/-! ### Reading a payload back -/

/-- The field up to the first comma, and what is behind that. -/
def field (bytes : List UInt8) : Option (List UInt8 × List UInt8) :=
  (bytes.findIdx? (· == comma)).map fun i => (bytes.take i, bytes.drop (i + 1))

/-- A length in decimal. -/
def readLength (ds : List UInt8) : Option Nat :=
  if ds ≠ [] ∧ ds.all Decimal.isDigit = true then some (Decimal.value ds) else none

/-- Read the line of a `Command.send` by its length field: the payload is as many bytes as that
says, and the terminator follows it. -/
def readSend (line : List UInt8) : Option (UInt16 × List UInt8) := do
  let rest ← stripPrefix line (utf8 "AT+SEND=")
  let (a, rest) ← field rest
  let toAddr ← (parseBytes a).toOption
  let (l, rest) ← field rest
  let len ← readLength l
  if rest.drop len = utf8 "\r\n" then some (toAddr, rest.take len) else none

theorem field_append {t : List UInt8} (h : comma ∉ t) (rest : List UInt8) :
    field (t ++ comma :: rest) = some (t, rest) := by
  rw [field, findIdx_comma_append h]
  simp

theorem readLength_text (n : Nat) : readLength (Decimal.text n) = some n := by
  have hdigits : (Decimal.text n).all Decimal.isDigit = true :=
    List.all_eq_true.mpr fun b hb => Decimal.isDigit_of_mem_text hb
  rw [readLength, if_pos ⟨Decimal.text_ne_nil n, hdigits⟩, Decimal.value_text]

theorem comma_not_mem_text (n : Nat) : comma ∉ Decimal.text n := fun h =>
  absurd (Decimal.isDigit_of_mem_text h) (by decide)

/-- The radio reads as many bytes as the length field says. -/
theorem readSend_wire (toAddr : UInt16) (data : List UInt8) :
    readSend (wire (.send toAddr data)) =
      if (data ++ utf8 "\r\n").drop (data.length % 65536) = utf8 "\r\n" then
        some (toAddr, (data ++ utf8 "\r\n").take (data.length % 65536))
      else none := by
  have hline : wire (.send toAddr data) = utf8 "AT+SEND=" ++ (numeral toAddr ++ comma ::
      (Decimal.text (data.length % 65536) ++ comma :: (data ++ utf8 "\r\n"))) := by
    rw [wire, wireBody, numeral_length, show utf8 "," = [comma] by decide]
    simp
  have hto : (parseBytes (numeral toAddr)).toOption = some toAddr := by
    rw [parseBytes_eq_ok_iff.mpr (denotes_numeral toAddr)]
    rfl
  rw [hline, readSend, stripPrefix_append]
  simp only [Option.bind_eq_bind, Option.bind_some]
  rw [field_append (denotes_numeral toAddr).comma_not_mem, Option.bind_some, hto, Option.bind_some,
    field_append (comma_not_mem_text _), Option.bind_some, readLength_text, Option.bind_some]

/-- The payload is read back when its length is not truncated. -/
theorem readSend_wire_iff (toAddr : UInt16) (data : List UInt8) :
    readSend (wire (.send toAddr data)) = some (toAddr, data) ↔ data.length < 65536 := by
  rw [readSend_wire]
  constructor
  · intro h
    split_ifs at h with hdrop
    -- only the terminator is left behind the payload
    have hlen := congrArg List.length hdrop
    have hmod := Nat.mod_lt data.length (by decide : 0 < 65536)
    have htwo : (utf8 "\r\n").length = 2 := rfl
    rw [List.length_drop, List.length_append, htwo] at hlen
    omega
  · intro h
    rw [Nat.mod_eq_of_lt h, List.drop_left, if_pos rfl, List.take_left]

/-- **Send round trip.** What `encode` writes for a payload is read back, by the length field, as
the destination and the payload exactly when the payload is shorter than 65536 bytes. -/
theorem send_round_trip_iff {toAddr : UInt16} {data buf buf' : List UInt8} {n : Nat}
    (h : encode (.send toAddr data) buf = .ok (.ok n, buf')) :
    readSend (buf'.take n) = some (toAddr, data) ↔ data.length < 65536 := by
  have htake : buf'.take n = wire (.send toAddr data) := by
    rcases Nat.lt_or_ge buf.length (wire (.send toAddr data)).length with hfull | hfit
    · obtain ⟨_, hover⟩ := encode_of_lt hfull
      cases hover.symm.trans h
    · cases (encode_of_le hfit).symm.trans h
      exact List.take_left
  rw [htake]
  exact readSend_wire_iff toAddr data

theorem send_round_trip_hello :
    readSend ((utf8 "AT+SEND=2,5,hello\r\n").take 19) = some (2, utf8 "hello") ↔
      (utf8 "hello").length < 65536 := by
  have h : encode (.send 2 (utf8 "hello")) (List.replicate 19 0) =
      .ok (.ok 19, utf8 "AT+SEND=2,5,hello\r\n") := by decide +kernel
  exact send_round_trip_iff h

/-- A payload of 65536 bytes is announced as one of `0` bytes. -/
theorem not_send_round_trip : ¬ ∀ toAddr data buf n buf',
    encode (.send toAddr data) buf = .ok (.ok n, buf') →
      readSend (buf'.take n) = some (toAddr, data) := by
  intro h
  have hlong := h 0 (List.replicate 65536 65) (wire (.send 0 (List.replicate 65536 65))) _ _
    (encode_of_le (Nat.le_refl _))
  rw [List.take_left, readSend_wire_iff, List.length_replicate] at hlong
  exact absurd hlong (by decide)

end Rylr998
