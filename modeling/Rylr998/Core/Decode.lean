import Rylr998.Core.FromStr
import Rylr998.Core.Types

/-!
# Parsing response and event lines

`parseResponse` and `parseEvent` take a complete line without its `\r\n`. A `+RCV` line is
`+RCV=<addr>,<len>,<data>,<rssi>,<snr>` where `<data>` is exactly `<len>` raw bytes, which may
contain commas.
-/

namespace Rylr998

/-- `,` -/
def comma : UInt8 := 44

namespace Prefix

def ok : List UInt8 := utf8 "+OK"
def err : List UInt8 := utf8 "+ERR="
def address : List UInt8 := utf8 "+ADDRESS="
def networkId : List UInt8 := utf8 "+NETWORKID="
def band : List UInt8 := utf8 "+BAND="
def parameter : List UInt8 := utf8 "+PARAMETER="
def crfop : List UInt8 := utf8 "+CRFOP="
def cpin : List UInt8 := utf8 "+CPIN="
def uid : List UInt8 := utf8 "+UID="
def ver : List UInt8 := utf8 "+VER="
def ready : List UInt8 := utf8 "+READY"
def rcv : List UInt8 := utf8 "+RCV="

end Prefix

/-- `starts_with` -/
def startsWith (line p : List UInt8) : Bool := p.isPrefixOf line

/-- `strip_prefix` -/
def stripPrefix (line p : List UInt8) : Option (List UInt8) :=
  if startsWith line p then some (line.drop p.length) else none

/-- `parse_bytes` -/
def parseBytes {α : Type} [FromStr α] (bytes : List UInt8) : Except Error α :=
  match fromUtf8 bytes with
  | none => .error .parse
  | some s =>
    match FromStr.fromStr s with
    | none => .error .parse
    | some v => .ok v

/-- `parse_str` -/
def parseStr (bytes : List UInt8) : Except Error String :=
  match fromUtf8 bytes with
  | none => .error .parse
  | some s => .ok s

/-- `u8::is_ascii_hexdigit` -/
def isAsciiHexdigit (b : UInt8) : Bool :=
  decide (48 ≤ b ∧ b ≤ 57 ∨ 65 ≤ b ∧ b ≤ 70 ∨ 97 ≤ b ∧ b ≤ 102)

/-- `parse_cpin` -/
def parseCpin (bytes : List UInt8) : Except Error String :=
  if bytes = utf8 "No Password!" then
    .ok ""
  else if bytes.length ≠ 8 ∨ ¬ bytes.all isAsciiHexdigit ∨ bytes.all (· == 48) then
    .error .parse
  else
    parseStr bytes

/-- The next field of a split, `parts.next().ok_or(Error::Parse)?`. -/
def nextPart (parts : List (List UInt8)) (i : Nat) : Except Error (List UInt8) :=
  match parts[i]? with
  | none => .error .parse
  | some p => .ok p

/-- The `+PARAMETER=` branch of `parse_response`: four comma-separated numbers. -/
def parseParameters (bytes : List UInt8) : Except Error RfParams := do
  let parts := bytes.splitOn comma
  let sf ← parseBytes (← nextPart parts 0)
  let bw ← parseBytes (← nextPart parts 1)
  let cr ← parseBytes (← nextPart parts 2)
  let preamble ← parseBytes (← nextPart parts 3)
  -- `parts.next().is_some()`: a fifth field
  if parts[4]?.isSome then
    throw Error.parse
  return { sf, bw, cr, preamble }

/-- `parse_response` -/
def parseResponse (line : List UInt8) : Except Error Response := do
  if line = Prefix.ok then
    return .ok
  if let some bytes := stripPrefix line Prefix.err then
    return .err (← parseBytes bytes)
  if let some bytes := stripPrefix line Prefix.address then
    return .address (← parseBytes bytes)
  if let some bytes := stripPrefix line Prefix.parameter then
    return .parameters (← parseParameters bytes)
  if let some bytes := stripPrefix line Prefix.networkId then
    return .networkId (← parseBytes bytes)
  if let some bytes := stripPrefix line Prefix.band then
    return .band (← parseBytes bytes)
  if let some bytes := stripPrefix line Prefix.crfop then
    return .crfop (← parseBytes bytes)
  if let some bytes := stripPrefix line Prefix.cpin then
    return .cpin (← parseCpin bytes)
  if let some bytes := stripPrefix line Prefix.uid then
    return .uid (← parseStr bytes)
  if let some bytes := stripPrefix line Prefix.ver then
    return .version (← parseStr bytes)
  throw Error.parse

/-- A parser step: it panics, fails with an `Error` or succeeds. -/
abbrev ParseM := ExceptT Error (Except Panic)

/-- A `Result` used with `?`. -/
def ParseM.ofResult {α : Type} (r : Except Error α) : ParseM α := ExceptT.mk (.ok r)

/-- `take_until_comma` -/
def takeUntilComma (bytes : List UInt8) : ParseM (List UInt8 × List UInt8) := do
  match bytes.findIdx? (· == comma) with
  | none => throw Error.parse
  | some i =>
    let head ← sliceTo bytes i
    let rest ← sliceFrom bytes (i + 1)
    return (head, rest)

/-- `parse_event` as `build` compiles it. -/
def parseEventIn [Target] (build : Build) (line : List UInt8) : ParseM Event :=
  if line = Prefix.ready then
    return .ready
  else
    match stripPrefix line Prefix.rcv with
    | none => throw Error.parse
    | some bytes => do
      let (fromBytes, rest) ← takeUntilComma bytes
      let fromAddr ← ParseM.ofResult (parseBytes fromBytes)
      let (dataBytes, rest) ← takeUntilComma rest
      let dataLen : Usize ← ParseM.ofResult (parseBytes dataBytes)
      let stop ← build.add dataLen.val 1
      -- the length is taken from the line, so it may run past the end
      if rest.length < stop then
        throw Error.parse
      else
        let data ← sliceTo rest dataLen.val
        -- the payload may hold commas: only the one behind it is looked for
        if rest[dataLen.val]? ≠ some comma then
          throw Error.parse
        else
          let rest ← sliceFrom rest stop
          let (rssiBytes, snrBytes) ← takeUntilComma rest
          let rssi ← ParseM.ofResult (parseBytes rssiBytes)
          let snr ← ParseM.ofResult (parseBytes snrBytes)
          return .recv fromAddr data rssi snr

/-- `parse_event`. The addition `data_len + 1` is checked here; where the build wraps instead, the
sum is `0`, the length test passes and `&rest[..data_len]` is out of bounds, so the call panics
either way. -/
def parseEvent [Target] (line : List UInt8) : ParseM Event := parseEventIn .checked line

end Rylr998
