import Mathlib.Data.Nat.Digits.Defs
import Mathlib.Data.Nat.Digits.Lemmas

/-!
# Decimal numerals in ASCII

`text n` is the canonical decimal numeral of a natural number and `value` reads a digit string;
`value_text` is the round trip. `textInt` puts a minus sign before the numeral of a negative
number. `Denotes` is the grammar of a signed or unsigned numeral with an optional sign and a range,
and `read` decides it (`read_eq_some_iff`).
-/

namespace Decimal

/-- The ASCII digit of `d < 10`. -/
def digitByte (d : Nat) : UInt8 := UInt8.ofNat (48 + d)

/-- Is the byte an ASCII digit? -/
def isDigit (b : UInt8) : Bool := decide (48 ≤ b.toNat ∧ b.toNat ≤ 57)

/-- The ASCII plus sign. -/
def plus : UInt8 := 43

/-- The ASCII minus sign. -/
def minus : UInt8 := 45

/-- The canonical numeral of `n`: no leading zero, and `0` for zero. -/
def text (n : Nat) : List UInt8 :=
  if n = 0 then [48] else (Nat.digits 10 n).reverse.map digitByte

/-- The value of a digit string, most significant digit first. -/
def value (ds : List UInt8) : Nat :=
  ds.foldl (fun acc b => 10 * acc + (b.toNat - 48)) 0

theorem toNat_digitByte {d : Nat} (h : d < 10) : (digitByte d).toNat = 48 + d := by
  simp [digitByte]; omega

theorem isDigit_digitByte {d : Nat} (h : d < 10) : isDigit (digitByte d) = true := by
  simp only [isDigit, toNat_digitByte h, decide_eq_true_eq]; omega

theorem isDigit_of_mem_text {n : Nat} {b : UInt8} (h : b ∈ text n) : isDigit b = true := by
  unfold text at h
  split_ifs at h
  · obtain rfl := List.mem_singleton.mp h
    decide
  · obtain ⟨d, hd, rfl⟩ := List.mem_map.mp h
    exact isDigit_digitByte (Nat.digits_lt_base (by omega) (List.mem_reverse.mp hd))

theorem text_ne_nil (n : Nat) : text n ≠ [] := by
  unfold text
  split_ifs with h
  · simp
  · simpa using Nat.digits_ne_nil_iff_ne_zero.mpr h

/-- Reading digits from the most significant one is `Nat.ofDigits` of the reversed digits. -/
theorem value_map_digitByte (ds : List Nat) (h : ∀ d ∈ ds, d < 10) :
    value (ds.map digitByte) = Nat.ofDigits 10 ds.reverse := by
  induction ds using List.reverseRecOn with
  | nil => rfl
  | append_singleton ds d ih =>
    have hd : d < 10 := h d (by simp)
    have ih' := ih fun x hx => h x (by simp [hx])
    unfold value at ih' ⊢
    rw [List.map_append, List.foldl_append, ih', List.reverse_append]
    simp only [List.map_cons, List.map_nil, List.foldl_cons, List.foldl_nil, toNat_digitByte hd,
      List.reverse_cons, List.reverse_nil, List.nil_append, List.singleton_append,
      Nat.ofDigits_cons]
    omega

theorem value_text (n : Nat) : value (text n) = n := by
  unfold text
  split_ifs with h
  · subst h; rfl
  · rw [value_map_digitByte _ fun d hd =>
      Nat.digits_lt_base (by omega) (List.mem_reverse.mp hd), List.reverse_reverse,
      Nat.ofDigits_digits]

theorem exists_digits {ds : List UInt8} (h : ∀ b ∈ ds, isDigit b = true) :
    ∃ L : List Nat, (∀ d ∈ L, d < 10) ∧ ds = L.map digitByte := by
  induction ds with
  | nil => exact ⟨[], by simp, rfl⟩
  | cons b ds ih =>
    obtain ⟨L, hL, rfl⟩ := ih fun x hx => h x (List.mem_cons_of_mem _ hx)
    have hb := of_decide_eq_true (h b List.mem_cons_self)
    have hdigit : digitByte (b.toNat - 48) = b := by
      rw [digitByte, Nat.add_sub_cancel' hb.1, UInt8.ofNat_toNat]
    refine ⟨(b.toNat - 48) :: L, ?_, by rw [List.map_cons, hdigit]⟩
    intro d hd
    rcases List.mem_cons.mp hd with rfl | hd
    · omega
    · exact hL d hd

/-- `ds` is the canonical numeral of `n`: digits without a leading zero that have the value `n`. -/
structure Canonical (ds : List UInt8) (n : Nat) : Prop where
  isDigit : ∀ b ∈ ds, isDigit b = true
  value : value ds = n
  ne_nil : ds ≠ []
  no_leading_zero : ds.head? = some 48 → ds = [48]

theorem canonical_text (n : Nat) : Canonical (text n) n where
  isDigit _ := isDigit_of_mem_text
  value := value_text n
  ne_nil := text_ne_nil n
  no_leading_zero h := by
    unfold text at h ⊢
    split_ifs at h ⊢ with h0
    · rfl
    -- the last digit that is found is written first, and is not zero
    exfalso
    have hne := Nat.digits_ne_nil_iff_ne_zero (b := 10).mpr h0
    have hlast := Nat.getLast_digit_ne_zero 10 h0
    rw [List.head?_map, List.head?_reverse, List.getLast?_eq_getLast_of_ne_nil hne,
      Option.map_some, Option.some.injEq] at h
    have hlt := Nat.digits_lt_base (b := 10) (by omega) (List.getLast_mem hne)
    have hval : (digitByte _).toNat = 48 := congrArg UInt8.toNat h
    rw [toNat_digitByte hlt] at hval
    omega

/-- A number has one canonical numeral. -/
theorem canonical_iff {ds : List UInt8} {n : Nat} : Canonical ds n ↔ ds = text n := by
  constructor
  · rintro ⟨hdig, rfl, hne, hzero⟩
    obtain ⟨L, hL, rfl⟩ := exists_digits hdig
    cases L with
    | nil => exact absurd rfl hne
    | cons d L =>
      by_cases hd : d = 0
      · subst hd
        rw [hzero rfl]
        rfl
      -- the first digit is the last one of `Nat.digits`
      have hdigits : Nat.digits 10 (value ((d :: L).map digitByte)) = (d :: L).reverse := by
        rw [value_map_digitByte _ hL]
        refine Nat.digits_ofDigits 10 (by omega) _ (fun x hx => hL x (List.mem_reverse.mp hx)) ?_
        intro h
        rw [List.getLast_reverse]
        exact hd
      have hpos : value ((d :: L).map digitByte) ≠ 0 := by
        rw [← Nat.digits_ne_nil_iff_ne_zero (b := 10), hdigits]
        simp
      rw [text, if_neg hpos, hdigits, List.reverse_reverse]
  · rintro rfl
    exact canonical_text n

/-- A number below `10 ^ k` has at most `k` digits. -/
theorem length_text_le {n k : Nat} (hk : 0 < k) (h : n < 10 ^ k) : (text n).length ≤ k := by
  unfold text
  split_ifs with h0
  · exact hk
  · rw [List.length_map, List.length_reverse]
    exact (Nat.digits_length_le_iff (by omega) n).mpr h

/-- The canonical numeral of an integer. -/
def textInt (v : Int) : List UInt8 :=
  if v < 0 then minus :: text v.natAbs else text v.natAbs

theorem length_textInt_le {v : Int} {k : Nat} (hk : 0 < k) (h : v.natAbs < 10 ^ k) :
    (textInt v).length ≤ k + 1 := by
  have := length_text_le hk h
  unfold textInt
  split_ifs
  · simpa using this
  · omega

/-! ### Numerals with a sign and a range -/

/-- `text` is a numeral of the value `v`: an optional `+`, or `-` when `signed`, then at least one
digit, with `lo ≤ v ≤ hi`. -/
def Denotes (signed : Bool) (lo hi : Int) (text : List UInt8) (v : Int) : Prop :=
  ∃ sign digits, text = sign ++ digits ∧
    (sign = [] ∨ sign = [plus] ∨ (signed = true ∧ sign = [minus])) ∧ digits ≠ [] ∧
    (∀ b ∈ digits, isDigit b = true) ∧
    v = (if sign = [minus] then -(value digits : Int) else value digits) ∧ lo ≤ v ∧ v ≤ hi

/-- The sign of a numeral and the rest of it. -/
def splitSign (signed : Bool) (src : List UInt8) : Bool × List UInt8 :=
  if src.head? = some plus then (false, src.tail)
  else if signed = true ∧ src.head? = some minus then (true, src.tail)
  else (false, src)

/-- Read a numeral: an empty digit string, another byte than a digit and a value out of range are
errors. -/
def read (signed : Bool) (lo hi : Int) (src : List UInt8) : Option Int :=
  let (negative, digits) := splitSign signed src
  if digits = [] ∨ ¬ digits.all isDigit then none
  else
    let v : Int := if negative then -(value digits : Int) else value digits
    if lo ≤ v ∧ v ≤ hi then some v else none

/-- A digit string does not start with a sign. -/
theorem head?_ne_of_digits {digits : List UInt8} (h : ∀ b ∈ digits, isDigit b = true) :
    digits.head? ≠ some plus ∧ digits.head? ≠ some minus := by
  cases digits with
  | nil => simp
  | cons a ds =>
    have ha := h a List.mem_cons_self
    constructor
    · simp only [List.head?_cons, ne_eq, Option.some.injEq]
      rintro rfl
      exact absurd ha (by decide)
    · simp only [List.head?_cons, ne_eq, Option.some.injEq]
      rintro rfl
      exact absurd ha (by decide)

theorem eq_cons_of_head? {src : List UInt8} {a : UInt8} (h : src.head? = some a) :
    src = a :: src.tail := by
  cases src with
  | nil => simp at h
  | cons b s => simpa using h

theorem read_eq_some_iff {signed : Bool} {lo hi : Int} {src : List UInt8} {v : Int} :
    read signed lo hi src = some v ↔ Denotes signed lo hi src v := by
  constructor
  · intro h
    unfold read splitSign at h
    split_ifs at h with h1 h2
    · simp only [Bool.false_eq_true, ↓reduceIte] at h
      split_ifs at h with hd hr
      push Not at hd
      obtain rfl := Option.some.inj h
      exact ⟨[plus], src.tail, eq_cons_of_head? h1, by simp, hd.1, by simpa using hd.2,
        by rw [if_neg (by decide)], hr⟩
    · simp only [↓reduceIte] at h
      split_ifs at h with hd hr
      push Not at hd
      obtain rfl := Option.some.inj h
      exact ⟨[minus], src.tail, eq_cons_of_head? h2.2, by simp [h2.1], hd.1, by simpa using hd.2,
        by rw [if_pos rfl], hr⟩
    · simp only [Bool.false_eq_true, ↓reduceIte] at h
      split_ifs at h with hd hr
      push Not at hd
      obtain rfl := Option.some.inj h
      exact ⟨[], src, rfl, by simp, hd.1, by simpa using hd.2, by simp, hr⟩
  · rintro ⟨sign, digits, rfl, hsign, hne, hdig, rfl, hlo, hhi⟩
    have hhead := head?_ne_of_digits hdig
    have hall : ¬ (digits = [] ∨ ¬ digits.all isDigit = true) := by
      push Not; exact ⟨hne, by simpa using hdig⟩
    -- `splitSign` gives back the sign that was written
    rcases hsign with rfl | rfl | ⟨rfl, rfl⟩
    · simp only [List.nil_append] at hlo hhi ⊢
      unfold read splitSign
      rw [if_neg hhead.1, if_neg (fun h => hhead.2 h.2)]
      simp only [if_neg hall, Bool.false_eq_true, ↓reduceIte]
      simp only [List.nil_eq, reduceCtorEq, ↓reduceIte] at hlo hhi ⊢
      rw [if_pos ⟨hlo, hhi⟩]
    · rw [if_neg (by decide)] at hlo hhi ⊢
      unfold read splitSign
      simp only [List.singleton_append, List.head?_cons, List.tail_cons, ↓reduceIte, if_neg hall,
        Bool.false_eq_true]
      rw [if_pos ⟨hlo, hhi⟩]
    · rw [if_pos rfl] at hlo hhi ⊢
      unfold read splitSign
      rw [if_neg (by simp [plus, minus])]
      simp only [List.singleton_append, List.head?_cons, List.tail_cons, and_self, ↓reduceIte,
        if_neg hall]
      rw [if_pos ⟨hlo, hhi⟩]

/-- A numeral has one value. -/
theorem Denotes.unique {signed : Bool} {lo hi : Int} {src : List UInt8} {v w : Int}
    (hv : Denotes signed lo hi src v) (hw : Denotes signed lo hi src w) : v = w :=
  Option.some.inj ((read_eq_some_iff.mpr hv).symm.trans (read_eq_some_iff.mpr hw))

/-- The canonical numeral denotes its number. -/
theorem denotes_textInt {signed : Bool} {lo hi v : Int} (hs : v < 0 → signed = true) (hlo : lo ≤ v)
    (hhi : v ≤ hi) : Denotes signed lo hi (textInt v) v := by
  unfold textInt
  split_ifs with h
  · exact ⟨[minus], text v.natAbs, rfl, by simp [hs h], text_ne_nil _,
      fun b hb => isDigit_of_mem_text hb, by rw [value_text, if_pos rfl]; omega, hlo, hhi⟩
  · exact ⟨[], text v.natAbs, rfl, by simp, text_ne_nil _, fun b hb => isDigit_of_mem_text hb,
      by rw [value_text, if_neg (by simp)]; omega, hlo, hhi⟩

/-- The bytes of a numeral are digits and signs. -/
theorem Denotes.mem {signed : Bool} {lo hi : Int} {src : List UInt8} {v : Int}
    (h : Denotes signed lo hi src v) {b : UInt8} (hb : b ∈ src) :
    isDigit b = true ∨ b = plus ∨ b = minus := by
  obtain ⟨sign, digits, rfl, hsign, -, hdig, -⟩ := h
  rcases List.mem_append.mp hb with hb | hb
  · rcases hsign with rfl | rfl | ⟨-, rfl⟩
    · simp at hb
    · exact Or.inr (Or.inl (List.mem_singleton.mp hb))
    · exact Or.inr (Or.inr (List.mem_singleton.mp hb))
  · exact Or.inl (hdig b hb)

end Decimal
