import Rylr998.Core.Decode

/-!
# What `parse_bytes` accepts

`parseBytes` accepts exactly the numerals of the type (`parseBytes_eq_ok_iff`). The UTF-8 check it
makes first never decides: a numeral is ASCII. Canonical numerals are accepted and short.
-/

namespace Rylr998

section Scalars

variable {α : Type} [Scalar α]

/-- The bytes of a numeral are ASCII digits and signs. -/
theorem Denotes.mem {text : List UInt8} {a : α} (h : Denotes text a) {b : UInt8} (hb : b ∈ text) :
    Decimal.isDigit b = true ∨ b = Decimal.plus ∨ b = Decimal.minus :=
  Decimal.Denotes.mem h hb

/-- A byte that is neither a digit nor a sign does not occur in a numeral. -/
theorem Denotes.not_mem {text : List UInt8} {a : α} (h : Denotes text a) {b : UInt8}
    (hb : ¬ (Decimal.isDigit b = true ∨ b = Decimal.plus ∨ b = Decimal.minus)) : b ∉ text :=
  fun hmem => hb (h.mem hmem)

theorem Denotes.lt_128 {text : List UInt8} {a : α} (h : Denotes text a) :
    ∀ b ∈ text, b.toNat < 128 := by
  intro b hb
  rcases h.mem hb with hd | rfl | rfl
  · have := of_decide_eq_true hd
    omega
  · decide
  · decide

/-- A numeral stands for one number. -/
theorem Denotes.unique {text : List UInt8} {a b : α} (ha : Denotes text a) (hb : Denotes text b) :
    a = b := by
  rw [← Scalar.ofInt_toInt a, ← Scalar.ofInt_toInt b, Decimal.Denotes.unique ha hb]

theorem denotes_numeral (a : α) : Denotes (numeral a) a :=
  Decimal.denotes_textInt (Scalar.signed_of_neg _ (Scalar.toInt_mem a).1) (Scalar.toInt_mem a).1
    (Scalar.toInt_mem a).2

theorem parseBytes_eq_ok_iff {bytes : List UInt8} {a : α} :
    parseBytes bytes = .ok a ↔ Denotes bytes a := by
  constructor
  · intro h
    unfold parseBytes at h
    cases hs : fromUtf8 bytes with
    | none => rw [hs] at h; cases h
    | some s =>
      rw [hs] at h
      have hb := fromUtf8_eq_some_iff.mp hs
      cases hv : Decimal.read (Scalar.signed α) (Scalar.lo α) (Scalar.hi α) (utf8 s) with
      | none => simp [FromStr.fromStr, hv] at h
      | some v =>
        simp only [FromStr.fromStr, hv, Option.map_some, Except.ok.injEq] at h
        subst h
        have hd := Decimal.read_eq_some_iff.mp hv
        obtain ⟨-, -, -, -, -, -, -, hlo, hhi⟩ := id hd
        rw [Denotes, Scalar.toInt_ofInt v hlo hhi, ← hb]
        exact hd
  · intro h
    obtain ⟨s, hs⟩ := exists_utf8_of_ascii h.lt_128
    unfold parseBytes
    rw [hs]
    have hv := Decimal.read_eq_some_iff.mpr h
    simp only [FromStr.fromStr, fromUtf8_eq_some_iff.mp hs, hv, Option.map_some,
      Scalar.ofInt_toInt]

end Scalars

/-! ### The length of canonical numerals -/

theorem length_numeral_uint16 (n : UInt16) : (numeral n).length ≤ 5 := by
  have h := Decimal.length_text_le (n := n.toNat) (k := 5) (by decide)
    (by have := n.toNat_lt; omega)
  rw [numeral, Decimal.textInt, if_neg (by simp [Scalar.toInt])]
  simpa [Scalar.toInt] using h

theorem length_numeral_int16 (n : Int16) : (numeral n).length ≤ 6 :=
  Decimal.length_textInt_le (by decide) (by
    have := Scalar.toInt_mem n
    simp [Scalar.lo, Scalar.hi] at this
    omega)

end Rylr998
