import Rylr998.Core.Encode
import Rylr998.Core.FromStr

/-!
# What `encode` writes

`wire cmd` is the encoded line of a command. `encode_of_le` and `encode_of_lt` say that `encode`
writes it when it fits and fails with `TxOverflow` otherwise; it never panics. They are assembled
from `Writes`, which a write satisfies when it puts a given byte string, and from the digit loops.
-/

namespace Rylr998

/-- The encoded line of a command, without its terminator. -/
def wireBody : Command → List UInt8
  | .ping => utf8 "AT"
  | .getAddress => utf8 "AT+ADDRESS?"
  | .setAddress n => utf8 "AT+ADDRESS=" ++ numeral n
  | .getNetworkId => utf8 "AT+NETWORKID?"
  | .setNetworkId n => utf8 "AT+NETWORKID=" ++ numeral n
  | .getBand => utf8 "AT+BAND?"
  | .setBand hz => utf8 "AT+BAND=" ++ numeral hz
  | .getParameters => utf8 "AT+PARAMETER?"
  | .setParameters p =>
    utf8 "AT+PARAMETER=" ++ (numeral p.sf ++ (utf8 "," ++ (numeral p.bw ++
      (utf8 "," ++ (numeral p.cr ++ (utf8 "," ++ numeral p.preamble))))))
  | .getCpin => utf8 "AT+CPIN?"
  | .setCpin pw => utf8 "AT+CPIN=" ++ pw
  | .getCrfop => utf8 "AT+CRFOP?"
  | .getUid => utf8 "AT+UID?"
  | .getVersion => utf8 "AT+VER?"
  | .factoryReset => utf8 "AT+RESET"
  | .send toAddr data =>
    utf8 "AT+SEND=" ++ (numeral toAddr ++ (utf8 "," ++
      (numeral (UInt16.ofNat data.length) ++ (utf8 "," ++ data))))

/-- The encoded line of a command. -/
def wire (cmd : Command) : List UInt8 := wireBody cmd ++ utf8 "\r\n"

theorem wire_ne_nil (cmd : Command) : wire cmd ≠ [] :=
  List.append_ne_nil_of_right_ne_nil _ (by decide)

/-! ### Writes -/

/-- The writer after the bytes `bs`. -/
def Writer.put (w : Writer) (bs : List UInt8) : Writer :=
  ⟨w.buf.take w.pos ++ bs ++ w.buf.drop (w.pos + bs.length), w.pos + bs.length⟩

/-- `m` writes `bs`, or fails with `TxOverflow` when there is no room for them. -/
def Writes (m : WriterM Unit) (bs : List UInt8) : Prop :=
  ∀ w : Writer, (w.pos + bs.length ≤ w.buf.length → m.run.run w = .ok (.ok (), w.put bs)) ∧
    (w.pos ≤ w.buf.length → w.buf.length < w.pos + bs.length →
      ∃ w', m.run.run w = .ok (.error .txOverflow, w'))

@[simp] theorem Writer.put_pos (w : Writer) (bs : List UInt8) :
    (w.put bs).pos = w.pos + bs.length := rfl

theorem Writer.put_length {w : Writer} {bs : List UInt8} (h : w.pos + bs.length ≤ w.buf.length) :
    (w.put bs).buf.length = w.buf.length := by
  simp [put]; omega

theorem Writer.put_put {w : Writer} {as bs : List UInt8}
    (h : w.pos + as.length ≤ w.buf.length) : (w.put as).put bs = w.put (as ++ bs) := by
  have hlen : w.pos + as.length = (w.buf.take w.pos ++ as).length := by simp; omega
  simp only [put, List.length_append, Writer.mk.injEq]
  refine ⟨?_, by omega⟩
  rw [List.take_append_of_le_length (by omega), List.take_of_length_le (by omega),
    List.drop_append, List.drop_of_length_le (l := w.buf.take w.pos ++ as) (by omega), ← hlen,
    List.drop_drop, List.nil_append]
  simp only [List.append_assoc]
  congr 4
  omega

theorem writes_bytes (s : List UInt8) : Writes (Writer.bytes s) s := by
  intro w
  constructor
  · intro h
    have hc : copyFromSlice w.buf w.pos (w.pos + s.length) s = .ok (w.put s).buf := by
      rw [copyFromSlice, if_pos ⟨Nat.le_add_right _ _, h⟩, if_pos (by omega), Writer.put]
    show (if w.buf.length < w.pos + s.length then _ else _ : WriterM Unit).run.run w = _
    rw [if_neg (by omega), hc]
    rfl
  · intro _ h
    refine ⟨w, ?_⟩
    show (if w.buf.length < w.pos + s.length then _ else _ : WriterM Unit).run.run w = _
    rw [if_pos h]
    rfl

theorem Writes.nil : Writes (pure ()) [] := by
  intro w
  refine ⟨fun h => ?_, fun h h' => absurd h' (by simp; omega)⟩
  have : w.put [] = w := by simp [Writer.put]
  rw [this]
  rfl

theorem Writes.bind {m n : WriterM Unit} {as bs : List UInt8} (hm : Writes m as)
    (hn : Writes n bs) : Writes (do m; n) (as ++ bs) := by
  intro w
  constructor
  · intro h
    rw [List.length_append] at h
    have h₁ := (hm w).1 (by omega)
    have h₂ := (hn (w.put as)).1 (by rw [Writer.put_length (by omega)]; simp; omega)
    rw [Writer.put_put (by omega)] at h₂
    show (m.run.run w >>= fun p => _) = _
    rw [h₁]
    exact h₂
  · intro hpos h
    rw [List.length_append] at h
    by_cases hfit : w.pos + as.length ≤ w.buf.length
    · have h₁ := (hm w).1 hfit
      obtain ⟨w', h₂⟩ := (hn (w.put as)).2 (by rw [Writer.put_length hfit]; simpa using hfit)
        (by rw [Writer.put_length hfit]; simp; omega)
      refine ⟨w', ?_⟩
      show (m.run.run w >>= fun p => _) = _
      rw [h₁]
      exact h₂
    -- the first write fails already
    · obtain ⟨w', h₁⟩ := (hm w).2 hpos (by omega)
      refine ⟨w', ?_⟩
      show (m.run.run w >>= fun p => _) = _
      rw [h₁]
      rfl

/-! ### Decimal numbers -/

/-- The digit loop stores the digits, least significant digit first. -/
theorem digitLoop_eq (n : Nat) {digits : List UInt8} {i : Nat}
    (h : i + (Nat.digits 10 n).length ≤ digits.length) :
    Writer.digitLoop n digits i = .ok (digits.take i ++ (Nat.digits 10 n).map Decimal.digitByte ++
      digits.drop (i + (Nat.digits 10 n).length), i + (Nat.digits 10 n).length) := by
  induction n using Nat.strong_induction_on generalizing digits i with
  | _ n ih =>
  rw [Writer.digitLoop]
  by_cases hn : 0 < n
  -- one digit is stored, the loop goes on with `n / 10` at the next index
  · have hd := Nat.digits_def' (b := 10) (by omega) hn
    rw [hd, List.length_cons] at h
    have hset : indexSet digits i (UInt8.ofNat (48 + n % 10)) =
        .ok (digits.set i (Decimal.digitByte (n % 10))) := indexSet_of_lt (by omega) _
    rw [if_pos hn, hset]
    show Writer.digitLoop (n / 10) _ (i + 1) = _
    rw [ih (n / 10) (by omega) (by simp; omega), hd]
    have hdrop : (digits.set i (Decimal.digitByte (n % 10))).take (i + 1) =
        digits.take i ++ [Decimal.digitByte (n % 10)] := by
      rw [List.take_set, List.take_succ_eq_append_getElem (by omega),
        List.set_append_right _ _ (by simp)]
      simp [Nat.min_eq_left (show i ≤ digits.length by omega)]
    rw [hdrop, List.drop_set_of_lt (by omega)]
    simp [Nat.add_assoc, Nat.add_comm 1]
  · obtain rfl : n = 0 := by omega
    rw [if_neg hn]
    simp [pure, Except.pure]

theorem writes_writeDigits (digits : List UInt8) {i : Nat} (h : i ≤ digits.length) :
    Writes (Writer.writeDigits digits i) (digits.take i).reverse := by
  induction i with
  | zero => simpa [Writer.writeDigits] using Writes.nil
  | succ i ih =>
    have hi : Writes (do Writer.bytes [digits[i]]; Writer.writeDigits digits i)
        ([digits[i]] ++ (digits.take i).reverse) := (writes_bytes _).bind (ih (by omega))
    rw [List.take_succ_eq_append_getElem (by omega), List.reverse_append]
    unfold Writer.writeDigits
    rw [index_of_lt (by omega)]
    exact hi

/-- `Writer.decimal` writes the canonical numeral when the digit array is wide enough. -/
theorem writes_decimal {width n : Nat} (h : n < 10 ^ width) :
    Writes (Writer.decimal width n) (Decimal.text n) := by
  unfold Writer.decimal Decimal.text
  by_cases hn : n = 0
  · subst hn
    exact writes_bytes _
  · have hlen := (Nat.digits_length_le_iff (b := 10) (by omega) n).mpr h
    simp only [if_neg hn]
    have := writes_writeDigits ((Nat.digits 10 n).map Decimal.digitByte ++
      (List.replicate width (0 : UInt8)).drop (Nat.digits 10 n).length)
      (i := (Nat.digits 10 n).length) (by simp)
    rw [List.take_append_of_le_length (by simp), List.take_of_length_le (by simp),
      ← List.map_reverse] at this
    rw [digitLoop_eq n (by simpa using hlen)]
    simp only [List.take_zero, List.nil_append, Nat.zero_add] at this ⊢
    exact this

theorem writes_u16 (n : UInt16) : Writes (Writer.u16 n) (numeral n) := by
  rw [numeral_of_nonneg (n := n.toNat) rfl]
  exact writes_decimal (by have := n.toNat_lt; omega)

theorem writes_u16_uint8 (n : UInt8) : Writes (Writer.u16 n.toUInt16) (numeral n) := by
  rw [numeral_of_nonneg (n := n.toNat) rfl, Writer.u16, UInt8.toNat_toUInt16]
  exact writes_decimal (by have := n.toNat_lt; omega)

theorem writes_u32 (n : UInt32) : Writes (Writer.u32 n) (numeral n) := by
  rw [numeral_of_nonneg (n := n.toNat) rfl]
  exact writes_decimal (by have := n.toNat_lt; omega)

/-! ### Commands -/

theorem writes_writeCommand (cmd : Command) : Writes (writeCommand cmd) (wireBody cmd) := by
  cases cmd with
  | setAddress n => exact (writes_bytes _).bind (writes_u16 n)
  | setNetworkId n => exact (writes_bytes _).bind (writes_u16_uint8 n)
  | setBand hz => exact (writes_bytes _).bind (writes_u32 hz)
  | setParameters p =>
    exact (writes_bytes _).bind ((writes_u16_uint8 p.sf).bind ((writes_bytes _).bind
      ((writes_u16_uint8 p.bw).bind ((writes_bytes _).bind ((writes_u16_uint8 p.cr).bind
        ((writes_bytes _).bind (writes_u16_uint8 p.preamble)))))))
  | setCpin pw => exact (writes_bytes _).bind (writes_bytes pw)
  | send toAddr data =>
    exact (writes_bytes _).bind ((writes_u16 toAddr).bind ((writes_bytes _).bind
      ((writes_u16 _).bind ((writes_bytes _).bind (writes_bytes data)))))
  | ping | getAddress | getNetworkId | getBand | getCpin | getParameters | getCrfop | getUid
  | getVersion | factoryReset => exact writes_bytes _

theorem writes_line (cmd : Command) :
    Writes (do writeCommand cmd; Writer.lit (utf8 "\r\n")) (wire cmd) :=
  (writes_writeCommand cmd).bind (writes_bytes _)

theorem encode_eq (cmd : Command) (buf : List UInt8) :
    encode cmd buf =
      ((do writeCommand cmd; Writer.lit (utf8 "\r\n") : WriterM Unit).run.run ⟨buf, 0⟩).map
        fun p => (p.1.map fun _ => p.2.pos, p.2.buf) := by
  -- the position is read after both writes
  have hassoc : (do writeCommand cmd; Writer.lit (utf8 "\r\n"); return (← get).pos : WriterM Nat) =
      (do (do writeCommand cmd; Writer.lit (utf8 "\r\n") : WriterM Unit); return (← get).pos) := by
    rw [bind_assoc]
  unfold encode
  dsimp only
  rw [hassoc]
  show (((_ : WriterM Unit).run.run ⟨buf, 0⟩ >>= fun p => _) >>= fun p => _) = _
  rcases (do writeCommand cmd; Writer.lit (utf8 "\r\n") : WriterM Unit).run.run ⟨buf, 0⟩ with
    p | ⟨_ | _, w⟩ <;> rfl

/-- A command that fits is written at the front of the buffer. -/
theorem encode_of_le {cmd : Command} {buf : List UInt8} (h : (wire cmd).length ≤ buf.length) :
    encode cmd buf = .ok (.ok (wire cmd).length, wire cmd ++ buf.drop (wire cmd).length) := by
  rw [encode_eq, (writes_line cmd ⟨buf, 0⟩).1 (by simpa using h)]
  simp [Writer.put, Except.map]

/-- A command that does not fit is refused. -/
theorem encode_of_lt {cmd : Command} {buf : List UInt8} (h : buf.length < (wire cmd).length) :
    ∃ buf', encode cmd buf = .ok (.error .txOverflow, buf') := by
  obtain ⟨w', hw⟩ := (writes_line cmd ⟨buf, 0⟩).2 (Nat.zero_le _) (by simpa using h)
  exact ⟨w'.buf, by rw [encode_eq, hw]; rfl⟩

end Rylr998
