import Rylr998.Core.Equiv.Decode

/-!
# What the line parsers accept, exactly

`parseEvent` and `parseResponse` accept the lines of a grammar and answer `Error.parse` to every
other line (`parseEvent_grammar`, `parseResponse_grammar`). There is one exception:
`data_len + 1` overflows where the length field of a `+RCV` line is `usize::MAX`, and `parseEvent`
panics there, in every build (`parsers_return_iff`).

`ParseM.Returns` says that a parser step cannot panic; its rules follow the `do` notation.
-/

namespace Rylr998

/-! ### Parser steps that cannot panic -/

/-- The only error of the computation is `Error.parse`. -/
def OnlyParse {α : Type} (x : Except Error α) : Prop := ∀ e, x = .error e → e = .parse

/-- The step returns a value or `Error.parse`. -/
def ParseM.Returns {α : Type} (x : ParseM α) : Prop :=
  (∃ a, x.run = .ok (.ok a)) ∨ x.run = .ok (.error .parse)

section Returns

variable {α β : Type}

theorem ParseM.Returns.pure (a : α) : (pure a : ParseM α).Returns := Or.inl ⟨a, rfl⟩

theorem ParseM.Returns.throw : (throw Error.parse : ParseM α).Returns := Or.inr rfl

theorem ParseM.Returns.bind {x : ParseM α} {f : α → ParseM β} (hx : x.Returns)
    (hf : ∀ a, x.run = .ok (.ok a) → (f a).Returns) : (x >>= f).Returns := by
  rcases hx with ⟨a, ha⟩ | hx
  · have hrun : (x >>= f).run = (f a).run := by
      show (x.run >>= ExceptT.bindCont f) = _
      rw [ha]
      rfl
    rw [Returns, hrun]
    exact hf a ha
  · right
    show (x.run >>= ExceptT.bindCont f) = _
    rw [hx]
    rfl

theorem ParseM.Returns.ne_panic {x : ParseM α} (h : x.Returns) (p : Panic) : x.run ≠ .error p := by
  intro hp
  rcases h with ⟨a, ha⟩ | hx
  · cases hp.symm.trans ha
  · cases hp.symm.trans hx

/-- Only the results that a step can have matter to what follows it. -/
theorem ParseM.bind_congr {x : ParseM α} {f g : α → ParseM β}
    (h : ∀ a, x.run = .ok (.ok a) → f a = g a) : (x >>= f) = (x >>= g) := by
  show ExceptT.mk (x.run >>= ExceptT.bindCont f) = ExceptT.mk (x.run >>= ExceptT.bindCont g)
  rcases hx : x.run with p | e | a
  · rfl
  · rfl
  · exact congrArg (fun y : ParseM β => y) (h a hx)

theorem ParseM.Returns.ofResult {r : Except Error α} (h : OnlyParse r) :
    (ParseM.ofResult r).Returns := by
  cases r with
  | ok a => exact Or.inl ⟨a, rfl⟩
  | error e =>
    obtain rfl := h e rfl
    exact Or.inr rfl

theorem OnlyParse.ok (a : α) : OnlyParse (.ok a) := nofun

theorem OnlyParse.parse : OnlyParse (.error .parse : Except Error α) :=
  fun _ h => (Except.error.inj h).symm

theorem OnlyParse.bind {x : Except Error α} {f : α → Except Error β} (hx : OnlyParse x)
    (hf : ∀ a, OnlyParse (f a)) : OnlyParse (x >>= f) := by
  intro e h
  cases x with
  | ok a => exact hf a e h
  | error e' =>
    obtain rfl : e' = e := Except.error.inj (h : (.error e' : Except Error β) = .error e)
    exact hx e' rfl

theorem OnlyParse.map {x : Except Error α} (hx : OnlyParse x) (f : α → β) :
    OnlyParse (x.map f) :=
  fun e h => hx e (Except.map_eq_error.mp h)

theorem OnlyParse.parseBytes [FromStr α] (bytes : List UInt8) :
    OnlyParse (Rylr998.parseBytes bytes : Except Error α) := by
  unfold Rylr998.parseBytes
  cases fromUtf8 bytes with
  | none => exact .parse
  | some s =>
    dsimp only
    cases (FromStr.fromStr s : Option α) with
    | none => exact .parse
    | some v => exact .ok v

theorem OnlyParse.parseStr (bytes : List UInt8) : OnlyParse (Rylr998.parseStr bytes) := by
  unfold Rylr998.parseStr
  cases fromUtf8 bytes with
  | none => exact .parse
  | some s => exact .ok s

theorem OnlyParse.parseCpin (bytes : List UInt8) : OnlyParse (Rylr998.parseCpin bytes) := by
  unfold Rylr998.parseCpin
  split_ifs
  · exact .ok _
  · exact .parse
  · exact .parseStr bytes

theorem OnlyParse.nextPart (parts : List (List UInt8)) (i : Nat) :
    OnlyParse (Rylr998.nextPart parts i) := by
  unfold Rylr998.nextPart
  cases parts[i]? with
  | none => exact .parse
  | some p => exact .ok p

theorem OnlyParse.parseParameters (bytes : List UInt8) :
    OnlyParse (Rylr998.parseParameters bytes) := by
  have hfield (i : Nat) {f : UInt8 → Except Error RfParams} (hf : ∀ n, OnlyParse (f n)) :
      OnlyParse (do
        let n ← Rylr998.parseBytes (← Rylr998.nextPart (bytes.splitOn comma) i)
        f n) :=
    (OnlyParse.nextPart _ i).bind fun p => (OnlyParse.parseBytes p).bind hf
  refine hfield 0 fun sf => hfield 1 fun bw => hfield 2 fun cr => hfield 3 fun preamble => ?_
  split_ifs
  · exact .parse
  · exact .ok _

theorem ParseM.Returns.parseBytes [FromStr α] (bytes : List UInt8) :
    (ParseM.ofResult (Rylr998.parseBytes bytes : Except Error α)).Returns :=
  .ofResult (.parseBytes bytes)

theorem ParseM.Returns.takeUntilComma (bytes : List UInt8) :
    (Rylr998.takeUntilComma bytes).Returns := by
  by_cases h : comma ∈ bytes
  · obtain ⟨t, rest, rfl, ht⟩ := List.eq_append_cons_of_mem h
    rw [takeUntilComma_append ht]
    exact .pure _
  · rw [takeUntilComma_of_not_mem h]
    exact .throw

end Returns

/-! ### Events -/

/-- `line` is `+RCV=` `a` `,` `l` `,` `rest`, and these are its first two commas. -/
def RcvFields (line a l rest : List UInt8) : Prop :=
  line = utf8 "+RCV=" ++ (a ++ comma :: (l ++ comma :: rest)) ∧ comma ∉ a ∧ comma ∉ l

section Events

variable [Target]

/-- `text` is a numeral of `usize::MAX`. -/
def DenotesMax (text : List UInt8) : Prop := ∃ len : Usize, Denotes text len ∧ len.val = usizeMax

/-- `parse_event` comes to `data_len + 1` with `data_len = usize::MAX`. -/
def LengthOverflows (line : List UInt8) : Prop :=
  ∃ a l rest, RcvFields line a l rest ∧ (∃ fromAddr : UInt16, Denotes a fromAddr) ∧ DenotesMax l

theorem Build.add_of_lt (build : Build) {n : Nat} (h : n < usizeMax) :
    build.add n 1 = .ok (n + 1) := by
  cases build with
  | checked => exact if_pos h
  | wrapping => rw [add, Nat.mod_eq_of_lt (by omega)]

/-- Two fields have been read, and the length field does not overflow. -/
theorem lt_usizeMax_of_not_overflows {bytes a rest l rest' : List UInt8} {fromAddr : UInt16}
    {len : Usize} (h : ¬ LengthOverflows (Prefix.rcv ++ bytes))
    (ha : (takeUntilComma bytes).run = .ok (.ok (a, rest)))
    (hfrom : (ParseM.ofResult (parseBytes a)).run = .ok (.ok fromAddr))
    (hl : (takeUntilComma rest).run = .ok (.ok (l, rest')))
    (hlen : (ParseM.ofResult (parseBytes l)).run = .ok (.ok len)) : len.val < usizeMax := by
  obtain rfl := takeUntilComma_eq_ok ha
  obtain rfl := takeUntilComma_eq_ok hl
  rw [ofResult_eq_ok, parseBytes_eq_ok_iff] at hfrom hlen
  refine Nat.lt_of_le_of_ne len.val_le fun hmax => h ?_
  exact ⟨a, l, rest', ⟨rfl, hfrom.comma_not_mem, hlen.comma_not_mem⟩, ⟨fromAddr, hfrom⟩, len, hlen,
    hmax⟩

/-- Where the length does not overflow, the builds agree. -/
theorem parseEventIn_eq (build : Build) {line : List UInt8} (h : ¬ LengthOverflows line) :
    parseEventIn build line = parseEvent line := by
  unfold parseEvent parseEventIn
  by_cases hready : line = Prefix.ready
  · rw [if_pos hready, if_pos hready]
  rw [if_neg hready, if_neg hready]
  by_cases hrcv : startsWith line Prefix.rcv = true
  swap
  · rw [stripPrefix_of_startsWith_eq_false (by simpa using hrcv)]
  obtain ⟨bytes, rfl⟩ := startsWith_iff.mp hrcv
  rw [stripPrefix_append]
  apply ParseM.bind_congr
  rintro ⟨a, rest⟩ ha
  apply ParseM.bind_congr
  intro fromAddr hfrom
  apply ParseM.bind_congr
  rintro ⟨l, rest'⟩ hl
  apply ParseM.bind_congr
  intro len hlen
  have hlt := lt_usizeMax_of_not_overflows h ha hfrom hl hlen
  rw [build.add_of_lt hlt, Build.checked.add_of_lt hlt]

/-- Where the length does not overflow, `parse_event` returns. -/
theorem parseEvent_returns {line : List UInt8} (h : ¬ LengthOverflows line) :
    (parseEvent line).Returns := by
  unfold parseEvent parseEventIn
  by_cases hready : line = Prefix.ready
  · rw [if_pos hready]
    exact .pure _
  rw [if_neg hready]
  by_cases hrcv : startsWith line Prefix.rcv = true
  swap
  · rw [stripPrefix_of_startsWith_eq_false (by simpa using hrcv)]
    exact .throw
  obtain ⟨bytes, rfl⟩ := startsWith_iff.mp hrcv
  rw [stripPrefix_append]
  refine (ParseM.Returns.takeUntilComma bytes).bind ?_
  rintro ⟨a, rest⟩ ha
  refine (ParseM.Returns.parseBytes a).bind ?_
  intro fromAddr hfrom
  refine (ParseM.Returns.takeUntilComma rest).bind ?_
  rintro ⟨l, rest'⟩ hl
  refine (ParseM.Returns.parseBytes l).bind ?_
  intro len hlen
  -- the length test protects every slice
  rw [Build.checked.add_of_lt (lt_usizeMax_of_not_overflows h ha hfrom hl hlen), liftM_ok_bind]
  by_cases hshort : rest'.length < len.val + 1
  · rw [if_pos hshort]
    exact .throw
  rw [if_neg hshort, sliceTo_of_le (by omega), liftM_ok_bind]
  by_cases hcomma : rest'[len.val]? ≠ some comma
  · rw [if_pos hcomma]
    exact .throw
  rw [if_neg hcomma, sliceFrom_of_le (by omega), liftM_ok_bind]
  refine (ParseM.Returns.takeUntilComma _).bind ?_
  rintro ⟨r, s⟩ -
  refine (ParseM.Returns.parseBytes r).bind ?_
  intro rssi _
  refine (ParseM.Returns.parseBytes s).bind ?_
  intro snr _
  exact .pure _

/-- Nothing else than the length makes `parse_event` panic. -/
theorem lengthOverflows_of_panic {line : List UInt8} {p : Panic}
    (h : (parseEvent line).run = .error p) : LengthOverflows line := by
  by_contra hover
  exact (parseEvent_returns hover).ne_panic p h

/-- Where the length overflows, `parse_event` panics: on the addition, or on the slice behind it
when the sum wraps around to `0`. -/
theorem parseEventIn_panics (build : Build) {line : List UInt8} (hline : line.length ≤ usizeMax)
    (h : LengthOverflows line) : ∃ p, (parseEventIn build line).run = .error p := by
  obtain ⟨a, l, rest, ⟨rfl, ha, hl⟩, ⟨fromAddr, hfrom⟩, len, hlen, hmax⟩ := h
  have hne : utf8 "+RCV=" ++ (a ++ comma :: (l ++ comma :: rest)) ≠ Prefix.ready :=
    append_ne_of_ne (by decide)
  have hstrip : stripPrefix (utf8 "+RCV=" ++ (a ++ comma :: (l ++ comma :: rest))) Prefix.rcv =
      some (a ++ comma :: (l ++ comma :: rest)) := stripPrefix_append _ _
  have hshort : rest.length < len.val := by
    simp only [List.length_append, List.length_cons] at hline
    omega
  unfold parseEventIn
  rw [if_neg hne, hstrip]
  dsimp only
  rw [takeUntilComma_append ha, pure_bind, parseBytes_eq_ok_iff.mpr hfrom, ofResult_ok_bind,
    takeUntilComma_append hl, pure_bind, parseBytes_eq_ok_iff.mpr hlen, ofResult_ok_bind]
  cases build with
  | checked =>
    rw [show Build.checked.add len.val 1 = .error .addOverflow from if_neg (by omega)]
    exact ⟨_, rfl⟩
  | wrapping =>
    have hwrap : Build.wrapping.add len.val 1 = .ok 0 := by
      rw [Build.add, hmax, Nat.mod_self]
    rw [hwrap, liftM_ok_bind, if_neg (Nat.not_lt_zero _),
      show sliceTo rest len.val = .error .outOfBounds from if_neg (by omega)]
    exact ⟨_, rfl⟩

end Events

/-! ### Responses -/

/-- The forms of a response line. -/
inductive Form where
  | ok
  | err
  | query (key : QueryKey)
  deriving DecidableEq

/-- What the lines of the form begin with. -/
def Form.text : Form → List UInt8
  | .ok => Prefix.ok
  | .err => Prefix.err
  | .query key => queryPrefix key

/-- The test for the form. -/
def Form.tests : Form → List UInt8 → Bool
  | .ok, line => decide (line = Prefix.ok)
  | .err, line => startsWith line Prefix.err
  | .query key, line => startsWith line (queryPrefix key)

/-- What a line of the form is parsed to. -/
def Form.parse : Form → List UInt8 → Except Error Response
  | .ok, _ => .ok .ok
  | .err, line => (parseBytes (line.drop Prefix.err.length)).map .err
  | .query key, line => queryParser key (line.drop (queryPrefix key).length)

/-- The order of the tests in `parse_response`. -/
def Form.order : List Form :=
  [.ok, .err, .query .address, .query .parameters, .query .networkId, .query .band, .query .crfop,
    .query .cpin, .query .uid, .query .version]

/-- Test for one form after the other. -/
def parseInOrder : List Form → List UInt8 → Except Error Response
  | [], _ => .error .parse
  | f :: fs, line => if f.tests line then f.parse line else parseInOrder fs line

/-- `line` is a well-formed response line, and `r` the response it stands for. -/
def IsResponse (line : List UInt8) (r : Response) : Prop := ∃ kind, IsReply kind line r

section Responses

variable {line : List UInt8}

theorem Form.mem_order (f : Form) : f ∈ order := by
  cases f with
  | ok | err => decide
  | query key => cases key <;> decide

theorem Form.text_isPrefix {f : Form} (h : f.tests line = true) : f.text <+: line := by
  cases f with
  | ok =>
    rw [of_decide_eq_true h]
    exact List.prefix_rfl
  | err => exact startsWith_iff.mp h
  | query key => exact startsWith_iff.mp h

/-- No form's text begins with that of another form. -/
theorem Form.eq_of_text {f g : Form} (h : f.text <+: g.text) : f = g := by
  have hall : ∀ f ∈ order, ∀ g ∈ order, f.text.isPrefixOf g.text = true → f = g := by
    decide +kernel
  exact hall f (mem_order f) g (mem_order g) (List.isPrefixOf_iff_prefix.mpr h)

/-- A line passes the test of one form at most. -/
theorem Form.tests_unique {f g : Form} (hf : f.tests line = true) (hg : g.tests line = true) :
    f = g := by
  rcases List.prefix_or_prefix_of_prefix (text_isPrefix hf) (text_isPrefix hg) with h | h
  · exact eq_of_text h
  · exact (eq_of_text h).symm

theorem parseResponse_of_tests {f : Form} (h : f.tests line = true) :
    parseResponse line = f.parse line := by
  cases f with
  | ok =>
    rw [of_decide_eq_true h]
    rfl
  | err =>
    obtain ⟨t, rfl⟩ := startsWith_iff.mp h
    rw [parseResponse_err, Form.parse, List.drop_left]
  | query key =>
    obtain ⟨t, rfl⟩ := startsWith_iff.mp h
    rw [parseResponse_query, Form.parse, List.drop_left]

theorem parseResponse_of_no_test (h : ∀ f : Form, f.tests line = false) :
    parseResponse line = .error .parse := by
  have hquery (key : QueryKey) : stripPrefix line (queryPrefix key) = none :=
    stripPrefix_of_startsWith_eq_false (h (.query key))
  have haddress : stripPrefix line Prefix.address = none := hquery .address
  have hparameter : stripPrefix line Prefix.parameter = none := hquery .parameters
  have hnetworkId : stripPrefix line Prefix.networkId = none := hquery .networkId
  have hband : stripPrefix line Prefix.band = none := hquery .band
  have hcrfop : stripPrefix line Prefix.crfop = none := hquery .crfop
  have hcpin : stripPrefix line Prefix.cpin = none := hquery .cpin
  have huid : stripPrefix line Prefix.uid = none := hquery .uid
  have hver : stripPrefix line Prefix.ver = none := hquery .version
  unfold parseResponse
  rw [if_neg (of_decide_eq_false (h .ok)), stripPrefix_of_startsWith_eq_false (h .err), haddress,
    hparameter, hnetworkId, hband, hcrfop, hcpin, huid, hver]
  rfl

/-- The tests may be made in any order. -/
theorem parseInOrder_eq {order : List Form} (h : ∀ f : Form, f.tests line = true → f ∈ order) :
    parseInOrder order line = parseResponse line := by
  induction order with
  | nil =>
    symm
    apply parseResponse_of_no_test
    intro f
    by_contra hf
    exact absurd (h f (by simpa using hf)) List.not_mem_nil
  | cons g order ih =>
    rw [parseInOrder]
    split_ifs with hg
    · exact (parseResponse_of_tests hg).symm
    · apply ih
      intro f hf
      rcases List.mem_cons.mp (h f hf) with rfl | hmem
      · exact absurd hf hg
      · exact hmem

theorem OnlyParse.queryParser (key : QueryKey) (t : List UInt8) :
    OnlyParse (Rylr998.queryParser key t) := by
  cases key with
  | address | networkId | band | crfop => exact (OnlyParse.parseBytes t).map _
  | parameters => exact (OnlyParse.parseParameters t).map _
  | uid | version => exact (OnlyParse.parseStr t).map _
  | cpin => exact (OnlyParse.parseCpin t).map _

theorem OnlyParse.parseResponse (line : List UInt8) : OnlyParse (Rylr998.parseResponse line) := by
  by_cases h : ∃ f : Form, f.tests line = true
  · obtain ⟨f, hf⟩ := h
    rw [parseResponse_of_tests hf]
    cases f with
    | ok => exact .ok _
    | err => exact (OnlyParse.parseBytes _).map _
    | query key => exact .queryParser key _
  · rw [parseResponse_of_no_test fun f => by simpa using not_exists.mp h f]
    exact .parse

theorem parseResponse_eq_ok_iff {r : Response} :
    parseResponse line = .ok r ↔ IsResponse line r := by
  constructor
  · intro h
    have htest : ∃ f : Form, f.tests line = true := by
      by_contra hno
      rw [parseResponse_of_no_test fun f => by simpa using not_exists.mp hno f] at h
      cases h
    obtain ⟨f, hf⟩ := htest
    cases f with
    | ok =>
      obtain rfl : line = Prefix.ok := of_decide_eq_true hf
      cases h
      exact ⟨.ack, .ok⟩
    | err =>
      obtain ⟨t, rfl⟩ := startsWith_iff.mp hf
      rw [parseResponse_err] at h
      obtain ⟨code, hcode, rfl⟩ := Except.map_eq_ok.mp h
      exact ⟨.ack, .err (parseBytes_eq_ok_iff.mp hcode)⟩
    | query key =>
      obtain ⟨t, rfl⟩ := startsWith_iff.mp hf
      rw [parseResponse_query] at h
      exact ⟨.query key, .query (isValue_of_queryParser h)⟩
  · rintro ⟨kind, h⟩
    exact parseResponse_of_isReply h

/-- **The response grammar.** `parse_response` accepts the well-formed lines with their response and
rejects every other line; the forms exclude each other, and the order of the tests is free. -/
theorem parseResponse_grammar (line : List UInt8) :
    (∀ r, parseResponse line = .ok r ↔ IsResponse line r) ∧
      (parseResponse line = .error .parse ↔ ∀ r, ¬ IsResponse line r) ∧
      (∀ f g : Form, f.tests line = true → g.tests line = true → f = g) ∧
      ∀ order : List Form, (∀ f, f ∈ order) → parseInOrder order line = parseResponse line := by
  refine ⟨fun r => parseResponse_eq_ok_iff, ?_, fun f g => Form.tests_unique, ?_⟩
  · simp only [← parseResponse_eq_ok_iff]
    cases h : parseResponse line with
    | ok r => simp
    | error e =>
      obtain rfl := OnlyParse.parseResponse line e h
      simp
  · intro order horder
    exact parseInOrder_eq fun f _ => horder f

end Responses

/-! ### The parsers return -/

/-- Both parsers return, with `Error.parse` as the only error. -/
def ParsersReturn [Target] (build : Build) (line : List UInt8) : Prop :=
  (parseEventIn build line).Returns ∧ OnlyParse (parseResponse line)

/-- **Parsers return** on a line exactly when its length field does not overflow. -/
theorem parsers_return_iff [Target] (build : Build) {line : List UInt8}
    (hline : line.length ≤ usizeMax) : ParsersReturn build line ↔ ¬ LengthOverflows line := by
  constructor
  · rintro ⟨hreturns, -⟩ hmax
    obtain ⟨p, hp⟩ := parseEventIn_panics build hline hmax
    exact hreturns.ne_panic p hp
  · intro h
    refine ⟨?_, OnlyParse.parseResponse line⟩
    rw [parseEventIn_eq build h]
    exact parseEvent_returns h

section

attribute [local instance] Target.host

theorem parsers_return_iff_hello :
    ParsersReturn .wrapping (utf8 "+RCV=2,5,hello,-42,8") ↔
      ¬ LengthOverflows (utf8 "+RCV=2,5,hello,-42,8") :=
  parsers_return_iff .wrapping (by decide +kernel)

/-- No build parses the length `usize::MAX`. -/
theorem not_parsers_return : ¬ ∃ build, ∀ line, ParsersReturn build line := by
  rintro ⟨build, h⟩
  obtain ⟨hreturns, -⟩ := h (utf8 "+RCV=2,18446744073709551615,hello,-42,8")
  have hpanic : ∃ p,
      (parseEventIn build (utf8 "+RCV=2,18446744073709551615,hello,-42,8")).run = .error p := by
    cases build with
    | checked => exact ⟨.addOverflow, by decide +kernel⟩
    | wrapping => exact ⟨.outOfBounds, by decide +kernel⟩
  obtain ⟨p, hp⟩ := hpanic
  exact hreturns.ne_panic p hp

end

/-! ### The event grammar -/

/-- `line` is `+RCV=` `a` `,` `l` `,` `data` `,` `r` `,` `s`: the commas are the first one, the
first one behind it, the one behind as many bytes as `l` says, and the first one behind that. -/
def RcvSplit [Target] (line a l data r s : List UInt8) : Prop :=
  line = utf8 "+RCV=" ++ a ++ [comma] ++ l ++ [comma] ++ data ++ [comma] ++ r ++ [comma] ++ s ∧
    comma ∉ a ∧ comma ∉ l ∧ comma ∉ r ∧ ∃ len : Usize, Denotes l len ∧ len.val = data.length

/-- The first comma of a byte string is determined. -/
theorem comma_unique {t t' rest rest' : List UInt8} (ht : comma ∉ t) (ht' : comma ∉ t')
    (h : t ++ comma :: rest = t' ++ comma :: rest') : t = t' ∧ rest = rest' := by
  have hpair : (pure (t, rest) : ParseM _) = pure (t', rest') := by
    rw [← takeUntilComma_append ht, h, takeUntilComma_append ht']
  have hpair' : (t, rest) = (t', rest') := Except.ok.inj (Except.ok.inj hpair)
  exact Prod.mk.inj hpair'

section EventGrammar

variable [Target] {line : List UInt8}

theorem RcvSplit.unique {a l data r s a' l' data' r' s' : List UInt8}
    (h : RcvSplit line a l data r s) (h' : RcvSplit line a' l' data' r' s') :
    a = a' ∧ l = l' ∧ data = data' ∧ r = r' ∧ s = s' := by
  obtain ⟨rfl, ha, hl, hr, len, hlen, hdata⟩ := h
  obtain ⟨heq, ha', hl', hr', len', hlen', hdata'⟩ := h'
  simp only [List.append_assoc, List.singleton_append, List.append_cancel_left_eq] at heq
  obtain ⟨rfl, hrest₁⟩ := comma_unique ha ha' heq
  obtain ⟨rfl, hrest₂⟩ := comma_unique hl hl' hrest₁
  -- the length field says where the payload ends
  obtain rfl := hlen.unique hlen'
  obtain ⟨rfl, hrest₃⟩ := List.append_inj hrest₂ (hdata.symm.trans hdata')
  obtain ⟨rfl, rfl⟩ := comma_unique hr hr' (List.cons.inj hrest₃).2
  exact ⟨rfl, rfl, rfl, rfl, rfl⟩

theorem isRcv_iff {fromAddr : UInt16} {data : List UInt8} {rssi snr : Int16} :
    IsRcv line (.recv fromAddr data rssi snr) ↔ ∃ a l r s, RcvSplit line a l data r s ∧
      Denotes a fromAddr ∧ Denotes r rssi ∧ Denotes s snr := by
  constructor
  · rintro ⟨a, l, _, r, s, _, len, _, _, hline, ha, hl, hlen, hr, hs, he⟩
    obtain ⟨rfl, rfl, rfl, rfl⟩ := Event.recv.inj he
    exact ⟨a, l, r, s, ⟨hline, ha.comma_not_mem, hl.comma_not_mem, hr.comma_not_mem, len, hl, hlen⟩,
      ha, hr, hs⟩
  · rintro ⟨a, l, r, s, ⟨hline, -, -, -, len, hl, hlen⟩, ha, hr, hs⟩
    exact ⟨a, l, data, r, s, fromAddr, len, rssi, snr, hline, ha, hl, hlen, hr, hs, rfl⟩

theorem not_isRcv_ready : ¬ IsRcv line .ready := by
  rintro ⟨a, l, data, r, s, _, len, _, _, -, -, -, -, -, -, he⟩
  cases he

theorem parseEvent_eq_ok_iff {e : Event}
    (h : ∀ a l rest, RcvFields line a l rest → ¬ DenotesMax l) :
    (parseEvent line).run = .ok (.ok e) ↔ IsEvent line e := by
  refine ⟨isEvent_of_parseEvent, ?_⟩
  rintro (⟨a, l, data, r, s, fromAddr, len, rssi, snr, rfl, ha, hl, hlen, hr, hs, rfl⟩ | ⟨rfl, rfl⟩)
  · apply parseEvent_rcv ha hl hlen hr hs
    refine Nat.lt_of_le_of_ne len.val_le fun hmax => ?_
    apply h a l (data ++ [comma] ++ r ++ [comma] ++ s) _ ⟨len, hl, hmax⟩
    exact ⟨by simp, ha.comma_not_mem, hl.comma_not_mem⟩
  · rfl

/-- **The event grammar.** Unless the length field is `usize::MAX`, `parse_event` accepts `+READY`
and the `+RCV` lines with the fields of the grammar, and rejects every other line. A line has these
fields in one way at most. -/
theorem parseEvent_grammar (build : Build)
    (h : ∀ a l rest, RcvFields line a l rest → ¬ DenotesMax l) :
    (∀ fromAddr data rssi snr,
      (parseEventIn build line).run = .ok (.ok (.recv fromAddr data rssi snr)) ↔
        ∃ a l r s, RcvSplit line a l data r s ∧
          Denotes a fromAddr ∧ Denotes r rssi ∧ Denotes s snr) ∧
      ((parseEventIn build line).run = .ok (.ok .ready) ↔ line = utf8 "+READY") ∧
      ((parseEventIn build line).run = .ok (.error .parse) ↔ ∀ e, ¬ IsEvent line e) ∧
      ∀ a l data r s a' l' data' r' s', RcvSplit line a l data r s →
        RcvSplit line a' l' data' r' s' → a = a' ∧ l = l' ∧ data = data' ∧ r = r' ∧ s = s' := by
  have hover : ¬ LengthOverflows line := by
    rintro ⟨a, l, rest, hfields, -, hmax⟩
    exact h a l rest hfields hmax
  rw [parseEventIn_eq build hover]
  refine ⟨?_, ?_, ?_, fun _ _ _ _ _ _ _ _ _ _ => RcvSplit.unique⟩
  · intro fromAddr data rssi snr
    rw [parseEvent_eq_ok_iff h, ← isRcv_iff]
    simp [IsEvent]
  · rw [parseEvent_eq_ok_iff h]
    simp [IsEvent, not_isRcv_ready]
  · simp only [← parseEvent_eq_ok_iff h]
    rcases parseEvent_returns hover with ⟨e, he⟩ | herr
    · simp [he]
    · simp [herr]

end EventGrammar

section

attribute [local instance] Target.host

theorem parseEvent_grammar_hello :
    (∀ fromAddr data rssi snr,
      (parseEventIn .wrapping (utf8 "+RCV=2,5,hello,-42,8")).run =
          .ok (.ok (.recv fromAddr data rssi snr)) ↔
        ∃ a l r s, RcvSplit (utf8 "+RCV=2,5,hello,-42,8") a l data r s ∧
          Denotes a fromAddr ∧ Denotes r rssi ∧ Denotes s snr) ∧
      ((parseEventIn .wrapping (utf8 "+RCV=2,5,hello,-42,8")).run = .ok (.ok .ready) ↔
        utf8 "+RCV=2,5,hello,-42,8" = utf8 "+READY") ∧
      ((parseEventIn .wrapping (utf8 "+RCV=2,5,hello,-42,8")).run = .ok (.error .parse) ↔
        ∀ e, ¬ IsEvent (utf8 "+RCV=2,5,hello,-42,8") e) ∧
      ∀ a l data r s a' l' data' r' s', RcvSplit (utf8 "+RCV=2,5,hello,-42,8") a l data r s →
        RcvSplit (utf8 "+RCV=2,5,hello,-42,8") a' l' data' r' s' →
          a = a' ∧ l = l' ∧ data = data' ∧ r = r' ∧ s = s' := by
  refine parseEvent_grammar .wrapping ?_
  rintro a l rest ⟨heq, ha, hl⟩ ⟨len, hlen, hmax⟩
  have hline : utf8 "+RCV=2,5,hello,-42,8" =
      utf8 "+RCV=" ++ (utf8 "2" ++ comma :: (utf8 "5" ++ comma :: utf8 "hello,-42,8")) := by
    decide +kernel
  rw [hline] at heq
  obtain ⟨rfl, hrest⟩ := comma_unique (by decide) ha (List.append_cancel_left heq)
  obtain ⟨rfl, -⟩ := comma_unique (by decide) hl hrest
  have hfive : Denotes (utf8 "5") (⟨5, by decide⟩ : Usize) :=
    parseBytes_eq_ok_iff.mp (by decide +kernel)
  obtain rfl := hfive.unique hlen
  exact absurd hmax (by decide)

end

end Rylr998
