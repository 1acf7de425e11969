import Rylr998.Core.Driver
import Rylr998.Core.Equiv.FromStr
import Rylr998.Lib.Except

/-!
# The lines a radio sends

The grammar of well-formed lines, stated on their text: `IsRcv` for an unsolicited `+RCV` line and
`IsReply` for the reply to a command of a given kind. `parseEvent_of_isRcv` and
`parseResponse_of_isReply` say that the parsers read them back.

`parse_response` dispatches on the prefix of the line; `parseResponse_query` and
`parseResponse_err` say which value parser the rest of the line is given to.
-/

namespace Rylr998

/-! ### Prefixes -/

theorem startsWith_iff {line p : List UInt8} : startsWith line p = true ↔ p <+: line := by
  simp [startsWith]

@[simp] theorem startsWith_append (p t : List UInt8) : startsWith (p ++ t) p = true := by
  simp [startsWith]

@[simp] theorem startsWith_self (p : List UInt8) : startsWith p p = true := by
  simp [startsWith]

/-- Two byte strings that differ on their common length are not prefixes of a common string. -/
theorem startsWith_append_of_ne {p q t : List UInt8} (h : p.take q.length ≠ q.take p.length) :
    startsWith (q ++ t) p = false := by
  by_contra hp
  rw [Bool.not_eq_false, startsWith_iff] at hp
  apply h
  -- both are the prefix of `q ++ t` of the common length
  have h₁ : p.take q.length <+: q ++ t := (List.take_prefix _ _).trans hp
  have h₂ : q.take p.length <+: q ++ t := (List.take_prefix _ _).trans (List.prefix_append _ _)
  refine (List.prefix_of_prefix_length_le h₁ h₂ ?_).eq_of_length ?_ <;> simp [Nat.min_comm]

theorem ne_of_startsWith_eq_false {line p : List UInt8} (h : startsWith line p = false) :
    line ≠ p := by
  rintro rfl
  simp at h

@[simp] theorem stripPrefix_append (p t : List UInt8) : stripPrefix (p ++ t) p = some t := by
  simp [stripPrefix]

theorem stripPrefix_of_startsWith_eq_false {line p : List UInt8} (h : startsWith line p = false) :
    stripPrefix line p = none := by
  simp [stripPrefix, h]

theorem stripPrefix_append_of_ne {p q t : List UInt8} (h : p.take q.length ≠ q.take p.length) :
    stripPrefix (q ++ t) p = none :=
  stripPrefix_of_startsWith_eq_false (startsWith_append_of_ne h)

theorem append_ne_of_ne {p q t : List UInt8} (h : p.take q.length ≠ q.take p.length) : q ++ t ≠ p :=
  ne_of_startsWith_eq_false (startsWith_append_of_ne h)

/-! ### Events -/

/-- `line` is a well-formed `+RCV` line that carries the event `e`. -/
def IsRcv [Target] (line : List UInt8) (e : Event) : Prop :=
  ∃ (a l data r s : List UInt8) (fromAddr : UInt16) (len : Usize) (rssi snr : Int16),
    line = utf8 "+RCV=" ++ a ++ [comma] ++ l ++ [comma] ++ data ++ [comma] ++ r ++ [comma] ++ s ∧
    Denotes a fromAddr ∧ Denotes l len ∧ len.val = data.length ∧ Denotes r rssi ∧ Denotes s snr ∧
    e = .recv fromAddr data rssi snr

/-- `line` is a well-formed event line that carries `e`: `+RCV` or `+READY`. -/
def IsEvent [Target] (line : List UInt8) (e : Event) : Prop :=
  IsRcv line e ∨ line = utf8 "+READY" ∧ e = .ready

@[simp] theorem ofResult_ok_bind {α β : Type} (a : α) (f : α → ParseM β) :
    (ParseM.ofResult (.ok a) >>= f) = f a := rfl

@[simp] theorem liftM_ok_bind {α β : Type} (a : α) (f : α → ParseM β) :
    ((liftM (.ok a : Except Panic α) : ParseM α) >>= f) = f a := rfl

theorem findIdx_comma_eq_none {bytes : List UInt8} (h : comma ∉ bytes) :
    bytes.findIdx? (· == comma) = none := by
  rw [List.findIdx?_eq_none_iff]
  intro x hx
  exact beq_eq_false_iff_ne.mpr fun hc => h (hc ▸ hx)

theorem findIdx_comma_append {t : List UInt8} (h : comma ∉ t) (rest : List UInt8) :
    (t ++ comma :: rest).findIdx? (· == comma) = some t.length := by
  rw [List.findIdx?_append, findIdx_comma_eq_none h, List.findIdx?_cons]
  simp

theorem takeUntilComma_append {t : List UInt8} (h : comma ∉ t) (rest : List UInt8) :
    takeUntilComma (t ++ comma :: rest) = (pure (t, rest) : ParseM _) := by
  unfold takeUntilComma
  rw [findIdx_comma_append h]
  dsimp only
  rw [sliceTo_of_le (by simp), sliceFrom_of_le (by simp)]
  simp only [List.take_left]
  rw [show List.drop (t.length + 1) (t ++ comma :: rest) = rest by simp]
  rfl

theorem takeUntilComma_of_not_mem {bytes : List UInt8} (h : comma ∉ bytes) :
    takeUntilComma bytes = (throw Error.parse : ParseM _) := by
  unfold takeUntilComma
  rw [findIdx_comma_eq_none h]

theorem Denotes.comma_not_mem {α : Type} [Scalar α] {text : List UInt8} {a : α}
    (h : Denotes text a) : comma ∉ text :=
  h.not_mem (by decide)

theorem Denotes.cr_not_mem {α : Type} [Scalar α] {text : List UInt8} {a : α}
    (h : Denotes text a) : cr ∉ text :=
  h.not_mem (by decide)

/-- Only the payload can bring a byte into a `+RCV` line that is not one of the format. -/
theorem IsRcv.not_mem [Target] {line data : List UInt8} {fromAddr : UInt16} {rssi snr : Int16}
    (h : IsRcv line (.recv fromAddr data rssi snr)) {b : UInt8}
    (hb : ¬ (Decimal.isDigit b = true ∨ b = Decimal.plus ∨ b = Decimal.minus) ∧ b ≠ comma ∧
      b ∉ utf8 "+RCV=") (hdata : b ∉ data) : b ∉ line := by
  obtain ⟨a, l, _, r, s, _, _, _, _, rfl, ha, hl, -, hr, hs, h⟩ := h
  obtain ⟨-, rfl, -, -⟩ := Event.recv.inj h
  obtain ⟨hnum, hcomma, hprefix⟩ := hb
  simp [hcomma, hprefix, hdata, ha.not_mem hnum, hl.not_mem hnum, hr.not_mem hnum, hs.not_mem hnum]

/-- The parser reads the fields of a `+RCV` line back, provided that the addition does not
overflow. -/
theorem parseEvent_rcv [Target] {a l data r s : List UInt8} {fromAddr : UInt16} {len : Usize}
    {rssi snr : Int16} (ha : Denotes a fromAddr) (hl : Denotes l len)
    (hlen : len.val = data.length) (hr : Denotes r rssi) (hs : Denotes s snr)
    (hmax : len.val < usizeMax) :
    (parseEvent (utf8 "+RCV=" ++ a ++ [comma] ++ l ++ [comma] ++ data ++ [comma] ++ r ++ [comma] ++
      s)).run = .ok (.ok (.recv fromAddr data rssi snr)) := by
  have hne : (utf8 "+RCV=" ++ a ++ [comma] ++ l ++ [comma] ++ data ++ [comma] ++ r ++ [comma] ++
      s) ≠ Prefix.ready := by
    simp only [List.append_assoc]
    exact ne_of_startsWith_eq_false (startsWith_append_of_ne (by decide))
  have hstrip : stripPrefix (utf8 "+RCV=" ++ a ++ [comma] ++ l ++ [comma] ++ data ++ [comma] ++ r ++
      [comma] ++ s) Prefix.rcv =
      some (a ++ comma :: (l ++ comma :: (data ++ comma :: (r ++ comma :: s)))) := by
    simp only [List.append_assoc, List.singleton_append]
    exact stripPrefix_append _ _
  unfold parseEvent parseEventIn
  rw [if_neg hne, hstrip]
  dsimp only
  rw [takeUntilComma_append ha.comma_not_mem, pure_bind, parseBytes_eq_ok_iff.mpr ha,
    ofResult_ok_bind, takeUntilComma_append hl.comma_not_mem, pure_bind,
    parseBytes_eq_ok_iff.mpr hl, ofResult_ok_bind,
    show Build.checked.add len.val 1 = .ok (len.val + 1) from if_pos hmax, liftM_ok_bind,
    if_neg (by simp; omega), sliceTo_of_le (by simp; omega), liftM_ok_bind,
    if_neg (by simp [hlen]), sliceFrom_of_le (by simp; omega), liftM_ok_bind]
  rw [hlen, show (data ++ comma :: (r ++ comma :: s)).drop (data.length + 1) = r ++ comma :: s by
      simp, takeUntilComma_append hr.comma_not_mem, pure_bind, parseBytes_eq_ok_iff.mpr hr,
    ofResult_ok_bind, parseBytes_eq_ok_iff.mpr hs, ofResult_ok_bind, List.take_left]
  rfl

/-- The parser reads a well-formed `+RCV` line back. -/
theorem parseEvent_of_isRcv [Target] {line : List UInt8} {e : Event} (h : IsRcv line e)
    (hlen : line.length ≤ usizeMax) : (parseEvent line).run = .ok (.ok e) := by
  obtain ⟨a, l, data, r, s, fromAddr, len, rssi, snr, rfl, ha, hl, hlen', hr, hs, rfl⟩ := h
  apply parseEvent_rcv ha hl hlen' hr hs
  simp only [List.length_append, List.length_singleton] at hlen
  omega

theorem parseM_bind_eq_ok {α β : Type} {x : ParseM α} {f : α → ParseM β} {b : β} :
    (x >>= f).run = .ok (.ok b) ↔ ∃ a, x.run = .ok (.ok a) ∧ (f a).run = .ok (.ok b) := by
  show (x.run >>= ExceptT.bindCont f) = .ok (.ok b) ↔ _
  rw [Except.bind_eq_ok]
  constructor
  · rintro ⟨e | a, hx, hf⟩
    · cases hf
    · exact ⟨a, hx, hf⟩
  · rintro ⟨a, hx, hf⟩
    exact ⟨.ok a, hx, hf⟩

theorem ofResult_eq_ok {α : Type} {r : Except Error α} {a : α} :
    (ParseM.ofResult r).run = .ok (.ok a) ↔ r = .ok a :=
  ⟨fun h => Except.ok.inj h, fun h => congrArg Except.ok h⟩

theorem liftM_eq_ok {α : Type} {x : Except Panic α} {a : α} :
    ((liftM x : ParseM α)).run = .ok (.ok a) ↔ x = .ok a := by
  cases x with
  | error p => exact iff_of_false (fun h => by cases h) (fun h => by cases h)
  | ok a' =>
    constructor
    · intro h
      cases h
      rfl
    · intro h
      cases h
      rfl

theorem takeUntilComma_eq_ok {bytes t rest : List UInt8}
    (h : (takeUntilComma bytes).run = .ok (.ok (t, rest))) : bytes = t ++ comma :: rest := by
  unfold takeUntilComma at h
  cases hi : bytes.findIdx? (· == comma) with
  | none => rw [hi] at h; cases h
  | some i =>
    rw [hi] at h
    obtain ⟨hlt, hcomma, -⟩ := List.findIdx?_eq_some_iff_getElem.mp hi
    obtain ⟨t', ht, h⟩ := parseM_bind_eq_ok.mp h
    obtain ⟨rest', hrest, h⟩ := parseM_bind_eq_ok.mp h
    cases h
    rw [liftM_eq_ok, sliceTo_of_le (Nat.le_of_lt hlt)] at ht
    rw [liftM_eq_ok, sliceFrom_of_le hlt] at hrest
    obtain rfl := Except.ok.inj ht
    obtain rfl := Except.ok.inj hrest
    have hget : bytes[i] = comma := by simpa using hcomma
    rw [← hget, List.getElem_cons_drop, List.take_append_drop]

/-- The parser accepts well-formed event lines only. -/
theorem isEvent_of_parseEvent [Target] {line : List UInt8} {e : Event}
    (h : (parseEvent line).run = .ok (.ok e)) : IsEvent line e := by
  unfold parseEvent parseEventIn at h
  by_cases hready : line = Prefix.ready
  · rw [if_pos hready] at h
    cases h
    exact Or.inr ⟨hready, rfl⟩
  rw [if_neg hready] at h
  by_cases hrcv : startsWith line Prefix.rcv = true
  swap
  · rw [stripPrefix_of_startsWith_eq_false (by simpa using hrcv)] at h
    cases h
  obtain ⟨bytes, rfl⟩ := startsWith_iff.mp hrcv
  rw [stripPrefix_append] at h
  obtain ⟨⟨a, rest⟩, ha, h⟩ := parseM_bind_eq_ok.mp h
  obtain ⟨fromAddr, hfrom, h⟩ := parseM_bind_eq_ok.mp h
  obtain ⟨⟨l, rest₁⟩, hl, h⟩ := parseM_bind_eq_ok.mp h
  obtain ⟨len, hlen, h⟩ := parseM_bind_eq_ok.mp h
  obtain ⟨stop, hstop, h⟩ := parseM_bind_eq_ok.mp h
  obtain rfl := takeUntilComma_eq_ok ha
  obtain rfl := takeUntilComma_eq_ok hl
  rw [ofResult_eq_ok, parseBytes_eq_ok_iff] at hfrom hlen
  have hstop : stop = len.val + 1 := by
    rw [liftM_eq_ok, Build.add, checkedAdd] at hstop
    split_ifs at hstop
    exact (Except.ok.inj hstop).symm
  subst hstop
  dsimp only at h
  by_cases hshort : rest₁.length < len.val + 1
  · rw [if_pos hshort] at h
    cases h
  rw [if_neg hshort] at h
  obtain ⟨data, hdata, h⟩ := parseM_bind_eq_ok.mp h
  by_cases hcomma : rest₁[len.val]? ≠ some comma
  · rw [if_pos hcomma] at h
    cases h
  rw [if_neg hcomma] at h
  obtain ⟨rest₂, hrest, h⟩ := parseM_bind_eq_ok.mp h
  obtain ⟨⟨r, s⟩, hr, h⟩ := parseM_bind_eq_ok.mp h
  obtain ⟨rssi, hrssi, h⟩ := parseM_bind_eq_ok.mp h
  obtain ⟨snr, hsnr, h⟩ := parseM_bind_eq_ok.mp h
  cases h
  rw [liftM_eq_ok, sliceTo_of_le (by omega)] at hdata
  rw [liftM_eq_ok, sliceFrom_of_le (by omega)] at hrest
  rw [ofResult_eq_ok, parseBytes_eq_ok_iff] at hrssi hsnr
  obtain rfl := Except.ok.inj hdata
  obtain rfl := Except.ok.inj hrest
  have hr := takeUntilComma_eq_ok hr
  rw [not_not, List.getElem?_eq_some_iff] at hcomma
  obtain ⟨hlt, hget⟩ := hcomma
  -- the payload, its comma and what is behind it are all of the rest
  have hsplit : rest₁ = rest₁.take len.val ++ comma :: (r ++ comma :: s) := by
    rw [← hr, ← hget, List.getElem_cons_drop, List.take_append_drop]
  have hlen' : len.val = (rest₁.take len.val).length := by
    rw [List.length_take]
    omega
  refine Or.inl ⟨a, l, rest₁.take len.val, r, s, fromAddr, len, rssi, snr, ?_, hfrom, hlen, hlen',
    hrssi, hsnr, rfl⟩
  conv_lhs => rw [hsplit]
  simp [Prefix.rcv]

/-! ### Replies -/

/-- The prefix of the reply to a query. -/
def queryPrefix : QueryKey → List UInt8
  | .address => Prefix.address
  | .networkId => Prefix.networkId
  | .band => Prefix.band
  | .parameters => Prefix.parameter
  | .crfop => Prefix.crfop
  | .uid => Prefix.uid
  | .version => Prefix.ver
  | .cpin => Prefix.cpin

/-- The parser of the value that a query asks for. -/
def queryParser : QueryKey → List UInt8 → Except Error Response
  | .address, t => (parseBytes t).map .address
  | .networkId, t => (parseBytes t).map .networkId
  | .band, t => (parseBytes t).map .band
  | .parameters, t => (parseParameters t).map .parameters
  | .crfop, t => (parseBytes t).map .crfop
  | .uid, t => (parseStr t).map .uid
  | .version, t => (parseStr t).map .version
  | .cpin, t => (parseCpin t).map .cpin

theorem parseResponse_err (t : List UInt8) :
    parseResponse (Prefix.err ++ t) = (parseBytes t).map .err := by
  unfold parseResponse
  rw [if_neg (append_ne_of_ne (by decide)), stripPrefix_append]
  rfl

/-- The reply to a query is parsed by the parser of its value. -/
theorem parseResponse_query (key : QueryKey) (t : List UInt8) :
    parseResponse (queryPrefix key ++ t) = queryParser key t := by
  cases key
  all_goals
    unfold parseResponse queryPrefix
    rw [if_neg (append_ne_of_ne (by decide))]
    repeat rw [stripPrefix_append_of_ne (by decide)]
    rw [stripPrefix_append]
    rfl

theorem responseMatches_ack (line : List UInt8) : Driver.responseMatches .ack line = true ↔
    startsWith line Prefix.err = true ∨
      line = utf8 "+OK" ∨ line = utf8 "+RESET" ∨ line = utf8 "+READY" := by
  unfold Driver.responseMatches
  split_ifs with h <;> simp [h]

theorem responseMatches_query (key : QueryKey) (line : List UInt8) :
    Driver.responseMatches (.query key) line = true ↔
      startsWith line Prefix.err = true ∨ startsWith line (queryPrefix key) = true := by
  unfold Driver.responseMatches
  split_ifs with h
  · simp [h]
  · simp only [h, Bool.false_eq_true, false_or]
    cases key <;> rfl

/-- `t` is a well-formed value for the query, and `r` the response that carries it. -/
inductive IsValue : QueryKey → List UInt8 → Response → Prop
  | address {t : List UInt8} {n : UInt16} : Denotes t n → IsValue .address t (.address n)
  | networkId {t : List UInt8} {n : UInt8} : Denotes t n → IsValue .networkId t (.networkId n)
  | band {t : List UInt8} {hz : UInt32} : Denotes t hz → IsValue .band t (.band hz)
  | parameters {a b c d : List UInt8} {p : RfParams} : Denotes a p.sf → Denotes b p.bw →
    Denotes c p.cr → Denotes d p.preamble →
    IsValue .parameters (a ++ comma :: (b ++ comma :: (c ++ comma :: d))) (.parameters p)
  | crfop {t : List UInt8} {n : UInt8} : Denotes t n → IsValue .crfop t (.crfop n)
  | uid (s : String) : IsValue .uid (utf8 s) (.uid s)
  | version (s : String) : IsValue .version (utf8 s) (.version s)
  | noPassword : IsValue .cpin (utf8 "No Password!") (.cpin "")
  | cpin (s : String) : (utf8 s).length = 8 → (utf8 s).all isAsciiHexdigit = true →
    (utf8 s).all (· == 48) = false → IsValue .cpin (utf8 s) (.cpin s)

/-- `line` is a well-formed reply to a command of the kind, and `r` the response it stands for. -/
inductive IsReply : AwaitKind → List UInt8 → Response → Prop
  | ok : IsReply .ack (utf8 "+OK") .ok
  | err {kind : AwaitKind} {t : List UInt8} {code : UInt8} : Denotes t code →
    IsReply kind (Prefix.err ++ t) (.err code)
  | query {key : QueryKey} {t : List UInt8} {r : Response} : IsValue key t r →
    IsReply (.query key) (queryPrefix key ++ t) r

theorem nextPart_eq_ok {parts : List (List UInt8)} {i : Nat} {t : List UInt8} :
    nextPart parts i = .ok t ↔ parts[i]? = some t := by
  unfold nextPart
  cases parts[i]? with
  | none => simp
  | some p => simp

/-- A parameter list is accepted when it has four fields and each of them is a numeral. -/
theorem parseParameters_eq_ok {t : List UInt8} {p : RfParams} : parseParameters t = .ok p ↔
    ∃ a b c d, t.splitOn comma = [a, b, c, d] ∧ Denotes a p.sf ∧ Denotes b p.bw ∧
      Denotes c p.cr ∧ Denotes d p.preamble := by
  unfold parseParameters
  dsimp only
  constructor
  · intro h
    obtain ⟨a, ha, h⟩ := Except.bind_eq_ok.mp h
    obtain ⟨sf, hsf, h⟩ := Except.bind_eq_ok.mp h
    obtain ⟨b, hb, h⟩ := Except.bind_eq_ok.mp h
    obtain ⟨bw, hbw, h⟩ := Except.bind_eq_ok.mp h
    obtain ⟨c, hc, h⟩ := Except.bind_eq_ok.mp h
    obtain ⟨cr, hcr, h⟩ := Except.bind_eq_ok.mp h
    obtain ⟨d, hd, h⟩ := Except.bind_eq_ok.mp h
    obtain ⟨preamble, hpreamble, h⟩ := Except.bind_eq_ok.mp h
    rw [nextPart_eq_ok] at ha hb hc hd
    -- there is no fifth field
    have hparts : t.splitOn comma = [a, b, c, d] := by
      cases hfifth : (t.splitOn comma)[4]? with
      | some e => rw [hfifth] at h; cases h
      | none =>
        generalize t.splitOn comma = parts at ha hb hc hd hfifth
        rcases parts with _ | ⟨a', _ | ⟨b', _ | ⟨c', _ | ⟨d', _ | ⟨e, parts⟩⟩⟩⟩⟩
        · cases ha
        · cases hb
        · cases hc
        · cases hd
        · cases ha
          cases hb
          cases hc
          cases hd
          rfl
        · cases hfifth
    rw [hparts] at h
    cases h
    exact ⟨a, b, c, d, hparts, parseBytes_eq_ok_iff.mp hsf, parseBytes_eq_ok_iff.mp hbw,
      parseBytes_eq_ok_iff.mp hcr, parseBytes_eq_ok_iff.mp hpreamble⟩
  · rintro ⟨a, b, c, d, hparts, ha, hb, hc, hd⟩
    rw [hparts]
    simp only [nextPart, List.getElem?_cons_zero, List.getElem?_cons_succ]
    simp only [bind, Except.bind, parseBytes_eq_ok_iff.mpr ha, parseBytes_eq_ok_iff.mpr hb,
      parseBytes_eq_ok_iff.mpr hc, parseBytes_eq_ok_iff.mpr hd]
    rfl

theorem parseStr_utf8 (s : String) : parseStr (utf8 s) = .ok s := by
  rw [parseStr, fromUtf8_eq_some_iff.mpr rfl]

/-- The value parser reads a well-formed value back. -/
theorem queryParser_of_isValue {key : QueryKey} {t : List UInt8} {r : Response}
    (h : IsValue key t r) : queryParser key t = .ok r := by
  cases h with
  | address h | networkId h | band h | crfop h =>
    rw [queryParser, parseBytes_eq_ok_iff.mpr h]
    rfl
  | uid | version =>
    rw [queryParser, parseStr_utf8]
    rfl
  | noPassword => rfl
  | cpin s hlen hhex hzero =>
    have hne : utf8 s ≠ utf8 "No Password!" := by
      intro h
      rw [h] at hlen
      exact absurd hlen (by decide)
    rw [queryParser, parseCpin, if_neg hne, if_neg (by simp [hlen, hhex, hzero]), parseStr_utf8]
    rfl
  | @parameters a b c d p ha hb hc hd =>
    have hparts : (a ++ comma :: (b ++ comma :: (c ++ comma :: d))).splitOn comma =
        [a, b, c, d] := by
      rw [List.splitOn_append_cons_self_of_not_mem ha.comma_not_mem,
        List.splitOn_append_cons_self_of_not_mem hb.comma_not_mem,
        List.splitOn_append_cons_self_of_not_mem hc.comma_not_mem,
        List.splitOn_eq_singleton hd.comma_not_mem]
    rw [queryParser, parseParameters_eq_ok.mpr ⟨a, b, c, d, hparts, ha, hb, hc, hd⟩]
    rfl

theorem parseStr_eq_ok {t : List UInt8} {s : String} : parseStr t = .ok s ↔ utf8 s = t := by
  rw [← fromUtf8_eq_some_iff, parseStr]
  cases fromUtf8 t with
  | none => simp
  | some s' => simp

/-- A password is accepted when it has 8 hex digits that are not all `0`. -/
theorem parseCpin_eq_ok {t : List UInt8} {s : String} : parseCpin t = .ok s ↔
    t = utf8 "No Password!" ∧ s = "" ∨
      utf8 s = t ∧ t.length = 8 ∧ t.all isAsciiHexdigit = true ∧ t.all (· == 48) = false := by
  unfold parseCpin
  by_cases hno : t = utf8 "No Password!"
  · have hlen : t.length ≠ 8 := by
      rw [hno]
      decide
    rw [if_pos hno, Except.ok.injEq]
    constructor
    · intro hs
      exact Or.inl ⟨hno, hs.symm⟩
    · rintro (⟨-, rfl⟩ | ⟨-, h, -⟩)
      · rfl
      · exact absurd h hlen
  rw [if_neg hno]
  split_ifs with hbad
  · apply iff_of_false (by simp)
    rintro (⟨h, -⟩ | ⟨-, hlen, hhex, hzero⟩)
    · exact hno h
    · simp [hlen, hhex, hzero] at hbad
  · simp only [not_or, not_not, Bool.not_eq_true] at hbad
    simp [parseStr_eq_ok, hno, hbad]

/-- The value parser accepts well-formed values only. -/
theorem isValue_of_queryParser {key : QueryKey} {t : List UInt8} {r : Response}
    (h : queryParser key t = .ok r) : IsValue key t r := by
  cases key
  all_goals obtain ⟨a, ha, rfl⟩ := Except.map_eq_ok.mp h
  case address => exact .address (parseBytes_eq_ok_iff.mp ha)
  case networkId => exact .networkId (parseBytes_eq_ok_iff.mp ha)
  case band => exact .band (parseBytes_eq_ok_iff.mp ha)
  case crfop => exact .crfop (parseBytes_eq_ok_iff.mp ha)
  case parameters =>
    obtain ⟨a, b, c, d, hparts, ha, hb, hc, hd⟩ := parseParameters_eq_ok.mp ha
    have hjoin : [comma].intercalate (t.splitOn comma) = t := List.intercalate_splitOn comma
    have ht : t = a ++ comma :: (b ++ comma :: (c ++ comma :: d)) := by
      rw [← hjoin, hparts]
      simp
    rw [ht]
    exact .parameters ha hb hc hd
  case uid =>
    obtain rfl := parseStr_eq_ok.mp ha
    exact .uid a
  case version =>
    obtain rfl := parseStr_eq_ok.mp ha
    exact .version a
  case cpin =>
    rcases parseCpin_eq_ok.mp ha with ⟨rfl, rfl⟩ | ⟨rfl, hlen, hhex, hzero⟩
    · exact .noPassword
    · exact .cpin a hlen hhex hzero

/-- A matching line that `parse_response` accepts is a well-formed reply. -/
theorem isReply_of_parseResponse {kind : AwaitKind} {line : List UInt8} {r : Response}
    (hm : Driver.responseMatches kind line = true) (h : parseResponse line = .ok r) :
    IsReply kind line r := by
  have herr : startsWith line Prefix.err = true → IsReply kind line r := by
    intro hp
    obtain ⟨t, rfl⟩ := startsWith_iff.mp hp
    rw [parseResponse_err] at h
    obtain ⟨code, hcode, rfl⟩ := Except.map_eq_ok.mp h
    exact .err (parseBytes_eq_ok_iff.mp hcode)
  cases kind with
  | ack =>
    rcases (responseMatches_ack line).mp hm with hp | rfl | rfl | rfl
    · exact herr hp
    · cases h
      exact .ok
    · rw [show parseResponse (utf8 "+RESET") = .error .parse by decide +kernel] at h
      cases h
    · rw [show parseResponse (utf8 "+READY") = .error .parse by decide +kernel] at h
      cases h
  | query key =>
    rcases (responseMatches_query key line).mp hm with hp | hp
    · exact herr hp
    · obtain ⟨t, rfl⟩ := startsWith_iff.mp hp
      rw [parseResponse_query] at h
      exact .query (isValue_of_queryParser h)

/-- `parse_response` reads a well-formed reply back. -/
theorem parseResponse_of_isReply {kind : AwaitKind} {line : List UInt8} {r : Response}
    (h : IsReply kind line r) : parseResponse line = .ok r := by
  cases h with
  | ok => rfl
  | err h =>
    rw [parseResponse_err, parseBytes_eq_ok_iff.mpr h]
    rfl
  | query h => rw [parseResponse_query, queryParser_of_isValue h]

theorem responseMatches_of_isReply {kind : AwaitKind} {line : List UInt8} {r : Response}
    (h : IsReply kind line r) : Driver.responseMatches kind line = true := by
  cases h with
  | ok => rfl
  | err h => simp [Driver.responseMatches]
  | query h => exact (responseMatches_query _ _).mpr (Or.inr (startsWith_append _ _))

end Rylr998
