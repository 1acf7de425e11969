import Rylr998.Core.Equiv.Settings
import Rylr998.Tool.Params

/-!
# The command line and the wire

`parse_params` splits a string at characters and `parse_response` splits bytes. They agree since
the comma is ASCII: no other character has the byte of a comma in its encoding (`utf8_split`). So a
text is accepted on the command line exactly when the radio may report it, and what `encode` writes
is accepted by both (`params_agree`).
-/

namespace Rylr998

/-! ### Splitting an encoding -/

section Split

variable {α β : Type} [BEq α] [LawfulBEq α] [BEq β] [LawfulBEq β]

/-- What stands before the first separator goes into the first part. -/
theorem splitOn_append {b : β} {xs : List β} (h : b ∉ xs) (ys : List β) :
    (xs ++ ys).splitOn b = (ys.splitOn b).modifyHead (xs ++ ·) := by
  induction xs with
  | nil => cases hs : ys.splitOn b <;> simp [hs]
  | cons x xs ih =>
    rw [List.mem_cons, not_or] at h
    rw [List.cons_append, List.splitOn_cons_eq_if_modifyHead,
      if_neg (by simpa using Ne.symm h.1), ih h.2, List.modifyHead_modifyHead]
    rfl

/-- When one element is encoded as the separator and no other encoding has it, the parts of an
encoded list are the encoded parts. -/
theorem splitOn_flatMap {f : α → List β} {a : α} {b : β} (hf : f a = [b])
    (hne : ∀ c, c ≠ a → b ∉ f c) (l : List α) :
    (l.flatMap f).splitOn b = (l.splitOn a).map (List.flatMap f) := by
  induction l with
  | nil => simp
  | cons c l ih =>
    rw [List.flatMap_cons, List.splitOn_cons_eq_if_modifyHead]
    by_cases hc : c = a
    · subst hc
      rw [hf, List.singleton_append, List.splitOn_cons_eq_if_modifyHead, if_pos (BEq.refl _), ih,
        if_pos (BEq.refl _)]
      rfl
    · rw [splitOn_append (hne c hc), ih, if_neg (by simpa using hc)]
      cases l.splitOn a <;> simp

end Split

theorem utf8_ofList (l : List Char) : utf8 (String.ofList l) = l.flatMap String.utf8EncodeChar := by
  rw [utf8, String.toUTF8_eq_toByteArray, String.toByteArray_ofList, List.utf8Encode]
  simp

/-- An ASCII byte in the encoding of a character is the character. -/
theorem toNat_of_mem_utf8EncodeChar {c : Char} {b : UInt8} (h : b ∈ String.utf8EncodeChar c)
    (hb : b.toNat < 128) : b.toNat = c.toNat := by
  have hc : c.val.toNat = c.toNat := rfl
  unfold String.utf8EncodeChar at h
  dsimp only at h
  split_ifs at h with h1 h2 h3
  · obtain rfl := List.mem_singleton.mp h
    rw [UInt8.toNat_ofNat', hc]
    omega
  -- every byte of a longer encoding is at least 128
  all_goals
    exfalso
    simp only [List.mem_cons, List.not_mem_nil, or_false] at h
  · rcases h with rfl | rfl <;> rw [UInt8.toNat_ofNat'] at hb <;> omega
  · rcases h with rfl | rfl | rfl <;> rw [UInt8.toNat_ofNat'] at hb <;> omega
  · rcases h with rfl | rfl | rfl | rfl <;> rw [UInt8.toNat_ofNat'] at hb <;> omega

theorem comma_not_mem_utf8EncodeChar {c : Char} (h : c ≠ ',') :
    comma ∉ String.utf8EncodeChar c := by
  intro hmem
  have hc := toNat_of_mem_utf8EncodeChar hmem (by decide)
  exact h (Char.toNat_inj.mp hc.symm)

namespace Tool

/-- Splitting a string at the comma is splitting its bytes. -/
theorem utf8_split (s : String) : (split s ',').map utf8 = (utf8 s).splitOn comma := by
  have hsplit := splitOn_flatMap (by decide) (fun _ hc => comma_not_mem_utf8EncodeChar hc) s.toList
  rw [← utf8_ofList, String.ofList_toList] at hsplit
  rw [hsplit, split, List.map_map]
  exact List.map_congr_left fun l _ => utf8_ofList l

/-! ### Numbers -/

theorem le_foldl_digits (bytes : List UInt8) (acc : Nat) :
    acc ≤ bytes.foldl (fun acc b => 10 * acc + (b.toNat - 48)) acc := by
  induction bytes generalizing acc with
  | nil => exact Nat.le_refl _
  | cons b bytes ih =>
    have hstep : acc ≤ 10 * acc + (b.toNat - 48) := by omega
    exact hstep.trans (ih _)

/-- The digits are read when they are digits and the value fits. -/
theorem readDigits_eq_ok {bytes : List UInt8} {acc v : Nat} (hacc : acc ≤ 255) :
    readDigits acc bytes = .ok v ↔ (∀ b ∈ bytes, Decimal.isDigit b = true) ∧
      bytes.foldl (fun acc b => 10 * acc + (b.toNat - 48)) acc = v ∧ v ≤ 255 := by
  induction bytes generalizing acc with
  | nil =>
    rw [readDigits, Except.ok.injEq, List.foldl_nil]
    constructor
    · rintro rfl
      exact ⟨nofun, rfl, hacc⟩
    · exact fun h => h.2.1
  | cons b bytes ih =>
    rw [readDigits, List.forall_mem_cons, List.foldl_cons]
    split_ifs with hdigit hfit
    · rw [ih hfit]
      simp [hdigit]
    · -- the value only grows
      have hle := le_foldl_digits bytes (10 * acc + (b.toNat - 48))
      apply iff_of_false nofun
      rintro ⟨-, rfl, hv⟩
      exact hfit (hle.trans hv)
    · exact iff_of_false nofun fun h => hdigit h.1.1

/-- An unsigned numeral has digits behind the plus sign that it may have. -/
theorem denotes_iff {bytes : List UInt8} {a : UInt8} : Denotes bytes a ↔
    (Decimal.splitSign false bytes).2 ≠ [] ∧
      (∀ b ∈ (Decimal.splitSign false bytes).2, Decimal.isDigit b = true) ∧
        Decimal.value (Decimal.splitSign false bytes).2 = a.toNat := by
  have hsign : (Decimal.splitSign false bytes).1 = false := by
    unfold Decimal.splitSign
    split_ifs <;> simp_all
  have hread : Denotes bytes a ↔ Decimal.read false 0 255 bytes = some (a.toNat : Int) :=
    Decimal.read_eq_some_iff.symm
  have hle := a.toNat_lt
  rw [hread, Decimal.read]
  generalize Decimal.splitSign false bytes = q at hsign
  obtain ⟨negative, digits⟩ := q
  obtain rfl : negative = false := hsign
  simp only [Bool.false_eq_true, ↓reduceIte]
  split_ifs with hdigits hfit
  · refine iff_of_false nofun fun h => ?_
    rcases hdigits with rfl | hdigits
    · exact h.1 rfl
    · exact hdigits (List.all_eq_true.mpr h.2.1)
  · rw [not_or, not_not, List.all_eq_true] at hdigits
    simp only [Option.some.injEq, Nat.cast_inj, hdigits, ne_eq, not_false_eq_true, true_and]
    exact (and_iff_right fun b hb => hdigits.2 b hb).symm
  · refine iff_of_false nofun fun h => hfit ?_
    rw [h.2.2]
    omega

/-- The command line reads the numerals that the parser of the replies reads. -/
theorem u8FromStr_eq_ok {s : String} {a : UInt8} :
    u8FromStr s = .ok a ↔ Denotes (utf8 s) a := by
  rw [denotes_iff]
  unfold u8FromStr
  generalize utf8 s = bytes
  dsimp only
  split_ifs with hempty hsign
  · subst hempty
    exact iff_of_false nofun fun h => h.1 rfl
  · apply iff_of_false nofun
    rintro ⟨hne, hdigits, -⟩
    rcases hsign with rfl | rfl
    · exact hne rfl
    · exact absurd (hdigits _ (List.mem_singleton.mpr rfl)) (by decide)
  · have hne : (Decimal.splitSign false bytes).2 ≠ [] := by
      unfold Decimal.splitSign
      split_ifs with hplus hminus
      · intro htail
        have hbytes := Decimal.eq_cons_of_head? hplus
        rw [show bytes.tail = [] from htail] at hbytes
        exact hsign (Or.inl hbytes)
      · exact absurd hminus.1 (by decide)
      · exact hempty
    have hle := a.toNat_lt
    rw [Except.map_eq_ok]
    constructor
    · rintro ⟨v, hv, rfl⟩
      obtain ⟨hdigits, hvalue, hfit⟩ := (readDigits_eq_ok (by decide)).mp hv
      refine ⟨hne, hdigits, hvalue.trans ?_⟩
      rw [UInt8.toNat_ofNat']
      omega
    · rintro ⟨-, hdigits, hvalue⟩
      exact ⟨a.toNat, (readDigits_eq_ok (by decide)).mpr ⟨hdigits, hvalue, by omega⟩,
        UInt8.ofNat_toNat⟩

/-! ### Fields -/

theorem n_eq_ok {s : String} {a : UInt8} : n s = .ok a ↔ Denotes (utf8 s) a := by
  rw [n, Except.mapError_eq_ok, u8FromStr_eq_ok]

theorem parseParams_eq_ok {s : String} {p : RfParams} : parseParams s = .ok p ↔
    ∃ sf bw cr preamble, split s ',' = [sf, bw, cr, preamble] ∧ Denotes (utf8 sf) p.sf ∧
      Denotes (utf8 bw) p.bw ∧ Denotes (utf8 cr) p.cr ∧ Denotes (utf8 preamble) p.preamble := by
  unfold parseParams
  constructor
  · intro h
    split at h
    · next a b c d hparts =>
      obtain ⟨sf, hsf, h⟩ := Except.bind_eq_ok.mp h
      obtain ⟨bw, hbw, h⟩ := Except.bind_eq_ok.mp h
      obtain ⟨cr, hcr, h⟩ := Except.bind_eq_ok.mp h
      obtain ⟨preamble, hpreamble, h⟩ := Except.bind_eq_ok.mp h
      cases h
      exact ⟨a, b, c, d, hparts, n_eq_ok.mp hsf, n_eq_ok.mp hbw, n_eq_ok.mp hcr,
        n_eq_ok.mp hpreamble⟩
    · cases h
  · rintro ⟨a, b, c, d, hparts, ha, hb, hc, hd⟩
    rw [hparts]
    dsimp only
    rw [n_eq_ok.mpr ha, n_eq_ok.mpr hb, n_eq_ok.mpr hc, n_eq_ok.mpr hd]
    rfl

/-- Both parsers accept the same texts, with the same parameters. -/
theorem parseParams_iff {s : String} {p : RfParams} :
    parseParams s = .ok p ↔ parseResponse (utf8 "+PARAMETER=" ++ utf8 s) = .ok (.parameters p) := by
  have hquery : parseResponse (utf8 "+PARAMETER=" ++ utf8 s) =
      (parseParameters (utf8 s)).map .parameters := parseResponse_query .parameters (utf8 s)
  rw [hquery, Except.map_eq_ok, parseParams_eq_ok]
  simp only [Response.parameters.injEq, exists_eq_right, parseParameters_eq_ok, ← utf8_split]
  constructor
  · rintro ⟨a, b, c, d, hparts, ha, hb, hc, hd⟩
    rw [hparts]
    exact ⟨_, _, _, _, rfl, ha, hb, hc, hd⟩
  · rintro ⟨_, _, _, _, hparts, ha, hb, hc, hd⟩
    obtain ⟨a, bs, hsplit, rfl, hbs⟩ := List.map_eq_cons_iff.mp hparts
    obtain ⟨b, cs, rfl, rfl, hcs⟩ := List.map_eq_cons_iff.mp hbs
    obtain ⟨c, ds, rfl, rfl, hds⟩ := List.map_eq_cons_iff.mp hcs
    obtain ⟨d, es, rfl, rfl, hes⟩ := List.map_eq_cons_iff.mp hds
    obtain rfl := List.map_eq_nil_iff.mp hes
    exact ⟨a, b, c, d, hsplit, ha, hb, hc, hd⟩

example : parseParams "+9,007,1,12" = .ok ⟨9, 7, 1, 12⟩ := by decide +kernel

example : parseParams "9,7,1,12," = .error "expected S,B,C,P (4 ints), got 5 parts" := by
  decide +kernel

/-- The line that `encode` writes for parameters with the field text `s`. -/
def settingLine (s : String) : List UInt8 := utf8 "AT+PARAMETER=" ++ utf8 s ++ utf8 "\r\n"

/-- The line for the parameters has a field text, and the parser of the replies reads it back. -/
theorem exists_settingLine (p : RfParams) : ∃ s, wire (.setParameters p) = settingLine s ∧
    parseResponse (utf8 "+PARAMETER=" ++ utf8 s) = .ok (.parameters p) := by
  have hvalue : IsValue .parameters _ (.parameters p) := .parameters (denotes_numeral p.sf)
    (denotes_numeral p.bw) (denotes_numeral p.cr) (denotes_numeral p.preamble)
  have hcomma : comma.toNat < 128 := by decide
  have hascii : ∀ b ∈ numeral p.sf ++ comma :: (numeral p.bw ++ comma ::
      (numeral p.cr ++ comma :: numeral p.preamble)), b.toNat < 128 := by
    simp only [List.forall_mem_append, List.forall_mem_cons]
    exact ⟨(denotes_numeral p.sf).lt_128, hcomma, (denotes_numeral p.bw).lt_128, hcomma,
      (denotes_numeral p.cr).lt_128, hcomma, (denotes_numeral p.preamble).lt_128⟩
  obtain ⟨s, hs⟩ := exists_utf8_of_ascii hascii
  have hs := fromUtf8_eq_some_iff.mp hs
  refine ⟨s, ?_, ?_⟩
  · rw [settingLine, hs]
    rfl
  · rw [hs]
    exact parseResponse_of_isReply (.query hvalue)

/-- **One syntax for parameters.** A text is accepted on the command line exactly when the radio may
report it, with the same parameters, and what `encode` writes for parameters is accepted by both. -/
theorem params_agree :
    (∀ s p, parseParams s = .ok p ↔
      parseResponse (utf8 "+PARAMETER=" ++ utf8 s) = .ok (.parameters p)) ∧
    ∀ p, ∃ s, (∀ buf n buf', encode (.setParameters p) buf = .ok (.ok n, buf') ↔
        (settingLine s).length ≤ buf.length ∧ n = (settingLine s).length ∧
          buf' = settingLine s ++ buf.drop n) ∧
      parseParams s = .ok p ∧
      parseResponse (utf8 "+PARAMETER=" ++ utf8 s) = .ok (.parameters p) := by
  refine ⟨fun s p => parseParams_iff, fun p => ?_⟩
  obtain ⟨s, hline, hparse⟩ := exists_settingLine p
  refine ⟨s, fun buf n buf' => ?_, parseParams_iff.mpr hparse, hparse⟩
  rw [← hline]
  constructor
  · intro h
    obtain ⟨hle, rfl, hbuf⟩ := encode_eq_ok h
    exact ⟨hle, rfl, hbuf⟩
  · rintro ⟨hle, rfl, rfl⟩
    exact encode_of_le hle

end Tool

end Rylr998
