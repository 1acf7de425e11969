import Mathlib.Data.List.Basic

/-!
# Prefix codes

The words `f a`, for the `a` of which `P` is true, are a prefix code when a list begins with one of
them at most (`IsPrefixCode`). Then words behind each other can be told apart: when one sequence of
words begins another, what they are the words of does (`IsPrefixCode.prefix_of_flatMap`).
-/

namespace Coding

variable {α β : Type*} {f : α → List β} {P : α → Prop}

/-- A list that begins with a word of the code determines it. -/
def IsPrefixCode (f : α → List β) (P : α → Prop) : Prop :=
  ∀ {a b s t}, P a → P b → f a ++ s = f b ++ t → a = b ∧ s = t

theorem IsPrefixCode.prefix_of_flatMap (h : IsPrefixCode f P) (hne : ∀ a, f a ≠ []) {as bs : List α}
    (has : ∀ a ∈ as, P a) (hbs : ∀ b ∈ bs, P b) (hpre : as.flatMap f <+: bs.flatMap f) :
    as <+: bs := by
  induction as generalizing bs with
  | nil => exact List.nil_prefix
  | cons a as ih =>
    obtain ⟨ha, has⟩ := List.forall_mem_cons.mp has
    obtain ⟨t, ht⟩ := hpre
    cases bs with
    | nil =>
      rw [List.flatMap_cons, List.append_assoc] at ht
      exact absurd (List.append_eq_nil_iff.mp ht).1 (hne a)
    | cons b bs =>
      obtain ⟨hb, hbs'⟩ := List.forall_mem_cons.mp hbs
      rw [List.flatMap_cons, List.flatMap_cons, List.append_assoc] at ht
      obtain ⟨rfl, hrest⟩ := h ha hb ht
      exact List.cons_prefix_cons.mpr ⟨rfl, ih has hbs' ⟨t, hrest⟩⟩

end Coding
