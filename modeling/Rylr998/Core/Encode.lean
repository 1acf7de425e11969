import Rylr998.Core.Rust
import Rylr998.Core.Types

/-!
# Encoding commands

`encode` writes the `AT…` line of a command into a buffer with a `Writer`. A write that does not
fit is `TxOverflow`; what was written before stays in the buffer.
-/

namespace Rylr998

/-- The writer: the buffer and the position of the next write. -/
structure Writer where
  /-- The output buffer. -/
  buf : List UInt8
  /-- The number of bytes written. -/
  pos : Nat

/-- A write: it panics, fails with an `Error` or succeeds, and changes the writer. -/
abbrev WriterM := ExceptT Error (StateT Writer (Except Panic))

namespace Writer

/-- `Writer::bytes`. -/
def bytes (s : List UInt8) : WriterM Unit := do
  let w ← get
  if w.buf.length < w.pos + s.length then
    throw Error.txOverflow
  else
    let buf ← copyFromSlice w.buf w.pos (w.pos + s.length) s
    set (Writer.mk buf (w.pos + s.length))

/-- `Writer::lit`. -/
def lit (s : List UInt8) : WriterM Unit := bytes s

/-- The digit loop of `Writer::u16` and `Writer::u32`: the digits of `n` from the last one, stored
from index `i` on. -/
def digitLoop (n : Nat) (digits : List UInt8) (i : Nat) : Except Panic (List UInt8 × Nat) :=
  if 0 < n then do
    let digits ← indexSet digits i (UInt8.ofNat (48 + n % 10))
    digitLoop (n / 10) digits (i + 1)
  else
    pure (digits, i)
termination_by n

/-- The loop `for j in (0..i).rev()` that writes the digits. -/
def writeDigits (digits : List UInt8) : Nat → WriterM Unit
  | 0 => pure ()
  | j + 1 => do
    let d ← index digits j
    bytes [d]
    writeDigits digits j

/-- The common body of `Writer::u16` and `Writer::u32`, with a digit array of length `width`. -/
def decimal (width n : Nat) : WriterM Unit := do
  let digits := List.replicate width 0
  if n = 0 then
    bytes (utf8 "0")
  else
    let (digits, i) ← digitLoop n digits 0
    writeDigits digits i

/-- `Writer::u16`. -/
def u16 (n : UInt16) : WriterM Unit := decimal 5 n.toNat

/-- `Writer::u32`. -/
def u32 (n : UInt32) : WriterM Unit := decimal 10 n.toNat

end Writer

open Writer in
/-- The writes of `encode` before the closing `\r\n`. -/
def writeCommand : Command → WriterM Unit
  | .ping => lit (utf8 "AT")
  | .getAddress => lit (utf8 "AT+ADDRESS?")
  | .setAddress n => do
    lit (utf8 "AT+ADDRESS=")
    u16 n
  | .getNetworkId => lit (utf8 "AT+NETWORKID?")
  -- a `u8` is widened and written by `Writer::u16`
  | .setNetworkId n => do
    lit (utf8 "AT+NETWORKID=")
    u16 n.toUInt16
  | .getBand => lit (utf8 "AT+BAND?")
  | .setBand hz => do
    lit (utf8 "AT+BAND=")
    u32 hz
  | .getParameters => lit (utf8 "AT+PARAMETER?")
  | .setParameters p => do
    lit (utf8 "AT+PARAMETER=")
    u16 p.sf.toUInt16
    lit (utf8 ",")
    u16 p.bw.toUInt16
    lit (utf8 ",")
    u16 p.cr.toUInt16
    lit (utf8 ",")
    u16 p.preamble.toUInt16
  | .getCpin => lit (utf8 "AT+CPIN?")
  | .setCpin pw => do
    lit (utf8 "AT+CPIN=")
    bytes pw
  | .getCrfop => lit (utf8 "AT+CRFOP?")
  | .getUid => lit (utf8 "AT+UID?")
  | .getVersion => lit (utf8 "AT+VER?")
  | .factoryReset => lit (utf8 "AT+RESET")
  | .send toAddr data => do
    lit (utf8 "AT+SEND=")
    u16 toAddr
    lit (utf8 ",")
    -- `data.len() as u16` truncates
    u16 (UInt16.ofNat data.length)
    lit (utf8 ",")
    bytes data

/-- `encode`: the number of bytes written, and the buffer afterwards. -/
def encode (cmd : Command) (buf : List UInt8) : Except Panic (Except Error Nat × List UInt8) := do
  let body : WriterM Nat := do
    writeCommand cmd
    Writer.lit (utf8 "\r\n")
    return (← get).pos
  let (res, w) ← body.run.run ⟨buf, 0⟩
  return (res, w.buf)

end Rylr998
