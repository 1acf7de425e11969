import Mathlib.Data.List.Basic
import Mathlib.Data.List.Infix

/-!
# Lines closed by a two-symbol terminator

A stream over an alphabet `α` is cut into lines by a terminator of two symbols
(`Terminator`). A line is a block without the first symbol of the terminator;
`Terminator.splitLine` takes the first line off a stream, provided the first occurrence of the
first symbol is followed by the second one. `Terminator.unlines` is the way back.

The facts used elsewhere are the characterization of `splitLine` (`splitLine_eq_some_iff`), the
uniqueness of the first line (`line_unique`), and the shape of a prefix of a stream of whole lines
(`exists_split_of_unlines_append`): some whole lines, then a part of the next one.
-/

namespace Framing

variable {α : Type*}

/-- A line terminator of two symbols. -/
structure Terminator (α : Type*) where
  /-- The symbol that lines do not contain. -/
  first : α
  /-- The symbol that has to follow `first`. -/
  second : α

namespace Terminator

variable (t : Terminator α)

/-- The stream that consists of the lines `ls`, each followed by the terminator. -/
def unlines (ls : List (List α)) : List α :=
  ls.flatMap fun l => l ++ [t.first, t.second]

@[simp] theorem unlines_nil : t.unlines [] = [] := rfl

@[simp] theorem unlines_cons (l : List α) (ls : List (List α)) :
    t.unlines (l :: ls) = l ++ t.first :: t.second :: t.unlines ls := by
  simp [unlines]

@[simp] theorem unlines_append (ls ms : List (List α)) :
    t.unlines (ls ++ ms) = t.unlines ls ++ t.unlines ms := by
  simp [unlines]

variable [DecidableEq α]

/-- The first line of a stream and what follows its terminator. There is none when the first
`t.first` is missing or not followed by `t.second`. -/
def splitLine : List α → Option (List α × List α)
  | [] => none
  | a :: s =>
    if a = t.first then
      if s.head? = some t.second then some ([], s.tail) else none
    else (splitLine s).map fun p => (a :: p.1, p.2)

@[simp] theorem splitLine_nil : t.splitLine [] = none := rfl

/-- `splitLine` finds the decomposition into a line, the terminator and the rest. -/
theorem splitLine_eq_some_iff {s l r : List α} :
    t.splitLine s = some (l, r) ↔ t.first ∉ l ∧ s = l ++ t.first :: t.second :: r := by
  induction s generalizing l with
  | nil => simp [splitLine]
  | cons a s ih =>
    rw [splitLine]
    split_ifs with ha hb
    · -- the terminator stands at the front
      obtain ⟨s', rfl⟩ : ∃ s', s = t.second :: s' := by
        cases s with
        | nil => simp at hb
        | cons b s' => exact ⟨s', by simpa using hb⟩
      constructor
      · intro h
        obtain ⟨rfl, rfl⟩ : [] = l ∧ s' = r := by simpa using h
        simp [ha]
      · rintro ⟨hl, hs⟩
        cases l with
        | nil => simpa [ha] using hs
        | cons c l =>
          simp only [List.cons_append, List.cons.injEq] at hs
          exact absurd (by simp [← hs.1, ha]) hl
    -- only the first half of the terminator stands at the front: no line is complete
    · refine ⟨nofun, ?_⟩
      rintro ⟨hl, hs⟩
      cases l with
      | nil =>
        obtain ⟨-, rfl⟩ : a = t.first ∧ s = t.second :: r := by simpa using hs
        simp at hb
      | cons c l =>
        simp only [List.cons_append, List.cons.injEq] at hs
        exact absurd (by simp [← hs.1, ha]) hl
    -- the first symbol belongs to the line
    · simp only [Option.map_eq_some_iff, Prod.mk.injEq, Prod.exists]
      constructor
      · rintro ⟨l', r', h, rfl, rfl⟩
        obtain ⟨hl, rfl⟩ := ih.mp h
        exact ⟨by simp [hl, Ne.symm ha], rfl⟩
      · rintro ⟨hl, hs⟩
        cases l with
        | nil => exact absurd (by simpa using congrArg List.head? hs) ha
        | cons c l =>
          simp only [List.cons_append, List.cons.injEq] at hs
          obtain ⟨rfl, hs⟩ := hs
          exact ⟨l, r, ih.mpr ⟨fun h => hl (List.mem_cons_of_mem _ h), hs⟩, rfl, rfl⟩

theorem splitLine_line {l : List α} (hl : t.first ∉ l) (r : List α) :
    t.splitLine (l ++ t.first :: t.second :: r) = some (l, r) :=
  t.splitLine_eq_some_iff.mpr ⟨hl, rfl⟩

theorem splitLine_length {s l r : List α} (h : t.splitLine s = some (l, r)) :
    s.length = l.length + 2 + r.length := by
  obtain ⟨-, rfl⟩ := t.splitLine_eq_some_iff.mp h
  simp; omega

/-- The first line is determined: two decompositions of one stream agree. -/
theorem line_unique {l l' r r' : List α} (hl : t.first ∉ l) (hl' : t.first ∉ l')
    (h : l ++ t.first :: t.second :: r = l' ++ t.first :: t.second :: r') : l = l' ∧ r = r' := by
  have := (t.splitLine_line hl r).symm.trans
    ((congrArg t.splitLine h).trans (t.splitLine_line hl' r'))
  simpa using this

/-- Streams of whole lines are equal only when the lines are. -/
theorem unlines_inj {ls ms : List (List α)} (hls : ∀ x ∈ ls, t.first ∉ x)
    (hms : ∀ x ∈ ms, t.first ∉ x) (h : t.unlines ls = t.unlines ms) : ls = ms := by
  induction ls generalizing ms with
  | nil =>
    cases ms with
    | nil => rfl
    | cons y ms => simp at h
  | cons x ls ih =>
    cases ms with
    | nil => simp at h
    | cons y ms =>
      rw [unlines_cons, unlines_cons] at h
      obtain ⟨rfl, hrest⟩ := t.line_unique (hls x List.mem_cons_self) (hms y List.mem_cons_self) h
      rw [ih (fun z hz => hls z (List.mem_cons_of_mem _ hz))
        (fun z hz => hms z (List.mem_cons_of_mem _ hz)) hrest]

/-- Whole lines at the front of a stream of whole lines are the first ones. -/
theorem exists_of_unlines_append {ls xs : List (List α)} (hls : ∀ x ∈ ls, t.first ∉ x)
    (hxs : ∀ x ∈ xs, t.first ∉ x) {s : List α} (h : t.unlines xs ++ s = t.unlines ls) :
    ∃ ms, ls = xs ++ ms ∧ s = t.unlines ms := by
  induction xs generalizing ls with
  | nil => exact ⟨ls, rfl, h⟩
  | cons x xs ih =>
    cases ls with
    | nil => simp at h
    | cons l ls =>
      have hx := hxs x List.mem_cons_self
      obtain ⟨rfl, hrest⟩ := t.line_unique hx (hls l List.mem_cons_self) (by simpa using h)
      obtain ⟨ms, rfl, hs⟩ := ih (fun z hz => hls z (List.mem_cons_of_mem _ hz))
        (fun z hz => hxs z (List.mem_cons_of_mem _ hz)) hrest
      exact ⟨ms, rfl, hs⟩

/-- The first line without a property, and the lines before it, are determined. -/
theorem first_line_unique {P : List α → Prop} {ls ms : List (List α)} {l m r s : List α}
    (hls : ∀ x ∈ ls, t.first ∉ x ∧ P x) (hms : ∀ x ∈ ms, t.first ∉ x ∧ P x)
    (hl : t.first ∉ l ∧ ¬ P l) (hm : t.first ∉ m ∧ ¬ P m)
    (h : t.unlines ls ++ (l ++ t.first :: t.second :: r) =
      t.unlines ms ++ (m ++ t.first :: t.second :: s)) : ls = ms ∧ l = m ∧ r = s := by
  induction ls generalizing ms with
  | nil =>
    cases ms with
    | nil =>
      obtain ⟨rfl, rfl⟩ := t.line_unique hl.1 hm.1 (by simpa using h)
      exact ⟨rfl, rfl, rfl⟩
    | cons y ms =>
      have hy := hms y List.mem_cons_self
      obtain ⟨rfl, -⟩ := t.line_unique hl.1 hy.1 (by simpa using h)
      exact absurd hy.2 hl.2
  | cons x ls ih =>
    have hx := hls x List.mem_cons_self
    cases ms with
    | nil =>
      obtain ⟨rfl, -⟩ := t.line_unique hx.1 hm.1 (by simpa using h)
      exact absurd hx.2 hm.2
    | cons y ms =>
      have hy := hms y List.mem_cons_self
      obtain ⟨rfl, hrest⟩ := t.line_unique hx.1 hy.1 (by simpa using h)
      obtain ⟨rfl, hlm⟩ := ih (fun z hz => hls z (List.mem_cons_of_mem _ hz))
        (fun z hz => hms z (List.mem_cons_of_mem _ hz)) hrest
      exact ⟨rfl, hlm⟩

/-- A line inside a stream of whole lines that is closed by the terminator is the end of one of
them. -/
theorem exists_suffix_of_isInfix {ls : List (List α)} (hls : ∀ x ∈ ls, t.first ∉ x) {l : List α}
    (hfirst : t.first ∉ l) (hsecond : t.second ∉ l)
    (h : l ++ [t.first, t.second] <:+: t.unlines ls) : ∃ x ∈ ls, l <:+ x := by
  obtain ⟨s, r, h⟩ := h
  induction ls generalizing s with
  | nil => simp at h
  | cons x ls ih =>
    rw [unlines_cons] at h
    have h' : s ++ (l ++ t.first :: t.second :: r) = x ++ t.first :: t.second :: t.unlines ls := by
      simpa using h
    rcases List.append_eq_append_iff.mp h' with ⟨c, rfl, hc⟩ | ⟨c, rfl, hc⟩
    · -- the line begins in `s ++ c` and is its end
      have hcr : t.first ∉ c := fun hm =>
        hls (s ++ c) List.mem_cons_self (List.mem_append_right s hm)
      obtain ⟨rfl, -⟩ := t.line_unique hfirst hcr hc
      exact ⟨_, List.mem_cons_self, List.suffix_append s l⟩
    -- the line begins behind `x`, thus behind its terminator
    · rcases c with - | ⟨a, - | ⟨b, c⟩⟩
      · obtain ⟨rfl, -⟩ := t.line_unique hfirst List.not_mem_nil hc.symm
        exact ⟨_, List.mem_cons_self, List.nil_suffix⟩
      · cases l with
        | nil => exact ⟨_, List.mem_cons_self, List.nil_suffix⟩
        | cons b l =>
          have hb : t.second = b := (List.cons.inj (List.cons.inj hc).2).1
          exact absurd (hb ▸ List.mem_cons_self) hsecond
      · have hrest : t.unlines ls = c ++ (l ++ t.first :: t.second :: r) :=
          (List.cons.inj (List.cons.inj hc).2).2
        obtain ⟨y, hy, hly⟩ := ih (fun z hz => hls z (List.mem_cons_of_mem _ hz)) c
          (by rw [hrest]; simp)
        exact ⟨y, List.mem_cons_of_mem _ hy, hly⟩

/-! ### Prefixes of a stream of whole lines -/

/-- A prefix `p` of a stream of whole lines consists of whole lines and a part of the next line,
in which no line is complete. -/
theorem exists_split_of_unlines_append {ls : List (List α)} (hls : ∀ l ∈ ls, t.first ∉ l)
    {p m : List α} (h : p ++ m = t.unlines ls) :
    ∃ done todo part, ls = done ++ todo ∧ p = t.unlines done ++ part ∧
      part ++ m = t.unlines todo ∧ t.splitLine part = none := by
  induction ls generalizing p with
  | nil =>
    obtain ⟨rfl, rfl⟩ : p = [] ∧ m = [] := by simpa using h
    exact ⟨[], [], [], rfl, rfl, rfl, rfl⟩
  | cons l ls ih =>
    cases hp : t.splitLine p with
    | none => exact ⟨[], l :: ls, p, rfl, rfl, h, hp⟩
    | some q =>
      obtain ⟨l', r⟩ := q
      obtain ⟨hl', rfl⟩ := t.splitLine_eq_some_iff.mp hp
      have hl := hls l List.mem_cons_self
      obtain ⟨rfl, hr⟩ := t.line_unique hl' hl (by simpa using h)
      obtain ⟨done, todo, part, rfl, rfl, hm, hn⟩ :=
        ih (fun x hx => hls x (List.mem_cons_of_mem _ hx)) hr
      exact ⟨l' :: done, todo, part, rfl, by simp, hm, hn⟩

/-! ### The unfinished part of a stream -/

/-- What is left of a stream once every complete line has been taken off. -/
def unfinished (s : List α) : List α :=
  match h : t.splitLine s with
  | none => s
  | some (_, r) =>
    have : r.length < s.length := by have := t.splitLine_length h; omega
    unfinished r
termination_by s.length

theorem unfinished_of_splitLine_eq_none {s : List α} (h : t.splitLine s = none) :
    t.unfinished s = s := by
  rw [unfinished]
  split
  · rfl
  · simp_all

theorem unfinished_line {l : List α} (hl : t.first ∉ l) (r : List α) :
    t.unfinished (l ++ t.first :: t.second :: r) = t.unfinished r := by
  rw [unfinished]
  split
  · next h => rw [t.splitLine_line hl] at h; cases h
  · next h =>
    rw [t.splitLine_line hl] at h
    cases h
    rfl

theorem length_unfinished_le (s : List α) : (t.unfinished s).length ≤ s.length := by
  induction hn : s.length using Nat.strong_induction_on generalizing s with
  | _ n ih =>
  subst hn
  cases hs : t.splitLine s with
  | none => rw [t.unfinished_of_splitLine_eq_none hs]
  | some p =>
    obtain ⟨l, r⟩ := p
    have hlt := t.splitLine_length hs
    obtain ⟨hl, rfl⟩ := t.splitLine_eq_some_iff.mp hs
    rw [t.unfinished_line hl]
    exact (ih r.length (by omega) r rfl).trans (by omega)

/-- Whole lines at the front do not matter for the unfinished part. -/
theorem unfinished_unlines_append {ls : List (List α)} (hls : ∀ l ∈ ls, t.first ∉ l) (s : List α) :
    t.unfinished (t.unlines ls ++ s) = t.unfinished s := by
  induction ls with
  | nil => simp
  | cons l ls ih =>
    rw [unlines_cons, List.append_assoc, List.cons_append, List.cons_append,
      t.unfinished_line (hls l List.mem_cons_self)]
    exact ih fun x hx => hls x (List.mem_cons_of_mem _ hx)

end Terminator

end Framing
