import Rylr998.Lib.Except
import Rylr998.Lib.Lines

/-!
# Machines that consume a stream line by line

A `LineMachine` looks at the first complete line of its buffer and reacts in one of four ways
(`Reaction`): it leaves the line where it is, skips it and looks at the next one, takes it (with or
without an output, and with a new state), or fails. `LineMachine.next` is one such step on a
buffer, `LineMachine.drain` repeats it until a step has no output, and `LineMachine.feed` appends
chunks to the buffer and drains after each.

`next_inv` says once what a step can do, and `reaches_iff` which outputs the machine comes to when
it is stepped again and again. `feed_accepts` is the main result: a machine that has an output for
(or skips) every line of a stream yields the same outputs and the same final state whatever the
chunks are in which the stream arrives.
-/

namespace Framing

/-- What a machine does with a complete line. -/
inductive Reaction (σ ω ε : Type*) where
  /-- Leave the line at the front of the buffer. -/
  | keep
  /-- Take the line off and go on with the next one in the same state. -/
  | skip
  /-- Take the line off and stop, with an output or without. -/
  | take (out : Option ω) (s : σ)
  /-- Fail. -/
  | fault (e : ε)

/-- A machine that reads lines closed by `term`. -/
structure LineMachine (α σ ω ε : Type*) where
  /-- The terminator of the lines. -/
  term : Terminator α
  /-- The reaction to a line. -/
  react : σ → List α → Reaction σ ω ε

namespace LineMachine

variable {α σ ω ε : Type*} (M : LineMachine α σ ω ε)

/-- The machine skips each of the lines `ls` in state `s`. -/
def Skips (s : σ) (ls : List (List α)) : Prop :=
  ∀ l ∈ ls, M.term.first ∉ l ∧ M.react s l = .skip

/-- `Accepts s ls os s'`: from `s` the machine skips each of the lines `ls` or takes it with an
output; the outputs are `os` and the final state is `s'`. -/
inductive Accepts : σ → List (List α) → List ω → σ → Prop
  | nil {s : σ} : Accepts s [] [] s
  | skip {s s' : σ} {l : List α} {ls : List (List α)} {os : List ω} :
    M.term.first ∉ l → M.react s l = .skip → Accepts s ls os s' → Accepts s (l :: ls) os s'
  | take {s s₁ s' : σ} {o : ω} {l : List α} {ls : List (List α)} {os : List ω} :
    M.term.first ∉ l → M.react s l = .take (some o) s₁ → Accepts s₁ ls os s' →
      Accepts s (l :: ls) (o :: os) s'

section Ahead

variable (Q : Option ω → Prop) (P : ω → Prop)

/-- Behind lines that are skipped, or taken with an output in `Q`, the buffer has a line of which
the output satisfies `P`. -/
inductive Ahead : σ → List α → Prop
  | here {s s' : σ} {l r : List α} {o : ω} : M.term.first ∉ l → M.react s l = .take (some o) s' →
    P o → Ahead s (l ++ M.term.first :: M.term.second :: r)
  | skip {s : σ} {l r : List α} : M.term.first ∉ l → M.react s l = .skip → Ahead s r →
    Ahead s (l ++ M.term.first :: M.term.second :: r)
  | take {s s' : σ} {l r : List α} {o : Option ω} : M.term.first ∉ l → M.react s l = .take o s' →
    Q o → Ahead s' r → Ahead s (l ++ M.term.first :: M.term.second :: r)

end Ahead

variable {M}

theorem Skips.nil {s : σ} : M.Skips s [] := by simp [Skips]

theorem Skips.cons {s : σ} {l : List α} {ls : List (List α)} (hl : M.term.first ∉ l)
    (h : M.react s l = .skip) (hs : M.Skips s ls) : M.Skips s (l :: ls) := by
  simpa [Skips, hl, h] using hs

theorem Skips.not_mem {s : σ} {ls : List (List α)} (h : M.Skips s ls) :
    ∀ l ∈ ls, M.term.first ∉ l :=
  fun l hl => (h l hl).1

theorem Accepts.not_mem {s s' : σ} {ls : List (List α)} {os : List ω} (h : M.Accepts s ls os s') :
    ∀ l ∈ ls, M.term.first ∉ l := by
  induction h with
  | nil => simp
  | skip hl _ _ ih | take hl _ _ ih =>
    intro x hx
    rcases List.mem_cons.mp hx with rfl | hx
    · exact hl
    · exact ih x hx

theorem Accepts.append {s s₁ s' : σ} {ls ms : List (List α)} {os ps : List ω}
    (h : M.Accepts s ls os s₁) (h' : M.Accepts s₁ ms ps s') :
    M.Accepts s (ls ++ ms) (os ++ ps) s' := by
  induction h with
  | nil => exact h'
  | skip hl hr _ ih => exact .skip hl hr (ih h')
  | take hl hr _ ih => exact .take hl hr (ih h')

theorem Accepts.of_append {s s' : σ} {ls ms : List (List α)} {os : List ω}
    (h : M.Accepts s (ls ++ ms) os s') :
    ∃ s₁ os₁ os₂, os = os₁ ++ os₂ ∧ M.Accepts s ls os₁ s₁ ∧ M.Accepts s₁ ms os₂ s' := by
  induction ls generalizing s os with
  | nil => exact ⟨s, [], os, rfl, .nil, h⟩
  | cons l ls ih =>
    cases h with
    | skip hl hr h =>
      obtain ⟨s₁, os₁, os₂, rfl, h₁, h₂⟩ := ih h
      exact ⟨s₁, os₁, os₂, rfl, .skip hl hr h₁, h₂⟩
    | take hl hr h =>
      obtain ⟨s₁, os₁, os₂, rfl, h₁, h₂⟩ := ih h
      exact ⟨s₁, _ :: os₁, os₂, rfl, .take hl hr h₁, h₂⟩

theorem Ahead.of_skips {Q : Option ω → Prop} {P : ω → Prop} {s : σ} {ls : List (List α)}
    {buf : List α} (hs : M.Skips s ls) (h : M.Ahead Q P s buf) :
    M.Ahead Q P s (M.term.unlines ls ++ buf) := by
  induction ls with
  | nil => exact h
  | cons l ls ih =>
    obtain ⟨hl, hskip⟩ := hs l List.mem_cons_self
    have hrest := ih fun x hx => hs x (List.mem_cons_of_mem _ hx)
    rw [M.term.unlines_cons, List.append_assoc, List.cons_append, List.cons_append]
    exact .skip hl hskip hrest

variable [DecidableEq α] (M)

/-- One step on the buffer `buf`: skip lines until one is taken, is left in place or is missing. -/
def next (s : σ) (buf : List α) : Except ε (Option ω × σ × List α) :=
  match h : M.term.splitLine buf with
  | none => .ok (none, s, buf)
  | some (l, r) =>
    have : r.length < buf.length := by have := M.term.splitLine_length h; omega
    match M.react s l with
    | .keep => .ok (none, s, buf)
    | .skip => next s r
    | .take o s' => .ok (o, s', r)
    | .fault e => .error e
termination_by buf.length

/-- No line of the buffer can be taken: none is complete, or the first one is left in place. -/
def Stuck (s : σ) (buf : List α) : Prop :=
  M.term.splitLine buf = none ∨ ∃ l r, M.term.splitLine buf = some (l, r) ∧ M.react s l = .keep

variable {M}

/-! ### One step -/

theorem next_stuck {s : σ} {buf : List α} (h : M.Stuck s buf) :
    M.next s buf = .ok (none, s, buf) := by
  rw [next]
  split
  · rfl
  · next l r hl =>
    rcases h with h | ⟨l', r', h, hk⟩
    · rw [hl] at h; cases h
    · rw [hl] at h
      cases h
      simp [hk]

theorem next_skip {s : σ} {l r : List α} (hl : M.term.first ∉ l) (h : M.react s l = .skip) :
    M.next s (l ++ M.term.first :: M.term.second :: r) = M.next s r := by
  rw [next]
  split
  · next hn => rw [M.term.splitLine_line hl] at hn; cases hn
  · next hn =>
    rw [M.term.splitLine_line hl] at hn
    cases hn
    simp [h]

theorem next_take {s s' : σ} {o : Option ω} {l r : List α} (hl : M.term.first ∉ l)
    (h : M.react s l = .take o s') :
    M.next s (l ++ M.term.first :: M.term.second :: r) = .ok (o, s', r) := by
  rw [next]
  split
  · next hn => rw [M.term.splitLine_line hl] at hn; cases hn
  · next hn =>
    rw [M.term.splitLine_line hl] at hn
    cases hn
    simp [h]

theorem next_fault {s : σ} {e : ε} {l r : List α} (hl : M.term.first ∉ l)
    (h : M.react s l = .fault e) :
    M.next s (l ++ M.term.first :: M.term.second :: r) = .error e := by
  rw [next]
  split
  · next hn => rw [M.term.splitLine_line hl] at hn; cases hn
  · next hn =>
    rw [M.term.splitLine_line hl] at hn
    cases hn
    simp [h]

theorem next_skips {s : σ} {ls : List (List α)} (h : M.Skips s ls) (buf : List α) :
    M.next s (M.term.unlines ls ++ buf) = M.next s buf := by
  induction ls with
  | nil => simp
  | cons l ls ih =>
    have hl := h l List.mem_cons_self
    rw [M.term.unlines_cons, List.append_assoc, List.cons_append, List.cons_append,
      next_skip hl.1 hl.2]
    exact ih fun x hx => h x (List.mem_cons_of_mem _ hx)

/-- What a step can do: after some skipped lines it is stuck, or it takes a line. -/
theorem next_inv {s s' : σ} {o : Option ω} {buf buf' : List α}
    (h : M.next s buf = .ok (o, s', buf')) :
    ∃ skipped, M.Skips s skipped ∧
      ((o = none ∧ s' = s ∧ buf = M.term.unlines skipped ++ buf' ∧ M.Stuck s buf') ∨
        ∃ l, M.term.first ∉ l ∧ M.react s l = .take o s' ∧
          buf = M.term.unlines skipped ++ (l ++ M.term.first :: M.term.second :: buf')) := by
  -- every skipped line makes the buffer shorter
  induction hn : buf.length using Nat.strong_induction_on generalizing buf with
  | _ n ih =>
  subst hn
  cases hs : M.term.splitLine buf with
  | none =>
    rw [next_stuck (Or.inl hs)] at h
    cases h
    exact ⟨[], Skips.nil, Or.inl ⟨rfl, rfl, by simp, Or.inl hs⟩⟩
  | some p =>
    obtain ⟨l, r⟩ := p
    obtain ⟨hl, rfl⟩ := M.term.splitLine_eq_some_iff.mp hs
    cases hr : M.react s l with
    | keep =>
      rw [next_stuck (Or.inr ⟨l, r, hs, hr⟩)] at h
      cases h
      exact ⟨[], Skips.nil, Or.inl ⟨rfl, rfl, by simp, Or.inr ⟨l, r, hs, hr⟩⟩⟩
    | skip =>
      rw [next_skip hl hr] at h
      obtain ⟨skipped, hskip, hcase⟩ := ih _ (by simp; omega) h rfl
      refine ⟨l :: skipped, Skips.cons hl hr hskip, ?_⟩
      rcases hcase with ⟨ho, hs', rfl, hstuck⟩ | ⟨l', hl', hr', rfl⟩
      · exact Or.inl ⟨ho, hs', by simp, hstuck⟩
      · exact Or.inr ⟨l', hl', hr', by simp⟩
    | take o' s₁ =>
      rw [next_take hl hr] at h
      cases h
      exact ⟨[], Skips.nil, Or.inr ⟨l, hl, hr, by simp⟩⟩
    | fault e =>
      rw [next_fault hl hr] at h
      cases h

/-- A step fails on the first line that is not skipped. -/
theorem next_error_iff {s : σ} {e : ε} {buf : List α} :
    M.next s buf = .error e ↔ ∃ skipped l r, M.Skips s skipped ∧ M.term.first ∉ l ∧
      M.react s l = .fault e ∧
        buf = M.term.unlines skipped ++ (l ++ M.term.first :: M.term.second :: r) := by
  constructor
  · intro h
    induction hn : buf.length using Nat.strong_induction_on generalizing buf with
    | _ n ih =>
    subst hn
    cases hs : M.term.splitLine buf with
    | none => rw [next_stuck (Or.inl hs)] at h; cases h
    | some p =>
      obtain ⟨l, r⟩ := p
      obtain ⟨hl, rfl⟩ := M.term.splitLine_eq_some_iff.mp hs
      cases hr : M.react s l with
      | keep => rw [next_stuck (Or.inr ⟨l, r, hs, hr⟩)] at h; cases h
      | skip =>
        rw [next_skip hl hr] at h
        obtain ⟨skipped, l', r', hskip, hl', hr', rfl⟩ := ih _ (by simp; omega) h rfl
        exact ⟨l :: skipped, l', r', Skips.cons hl hr hskip, hl', hr', by simp⟩
      | take o s' => rw [next_take hl hr] at h; cases h
      | fault e' =>
        rw [next_fault hl hr] at h
        cases h
        exact ⟨[], l, r, Skips.nil, hl, hr, by simp⟩
  · rintro ⟨skipped, l, r, hskip, hl, hr, rfl⟩
    rw [next_skips hskip, next_fault hl hr]

/-- A step never makes the buffer longer, and makes it shorter when it has an output. -/
theorem next_length {s s' : σ} {o : Option ω} {buf buf' : List α}
    (h : M.next s buf = .ok (o, s', buf')) :
    buf'.length ≤ buf.length ∧ (o.isSome → buf'.length + 2 ≤ buf.length) := by
  obtain ⟨skipped, -, ⟨rfl, -, rfl, -⟩ | ⟨l, -, -, rfl⟩⟩ := next_inv h
  · simp
  · simp; omega

/-! ### Lines that mean something -/

section Honours

variable {s s' : σ} {o : Option ω} {carries : List α → Option ω} {ls : List (List α)}
  {buf buf' rest : List α}

/-- The machine puts out what the line carries: it skips one that carries nothing, or takes it. -/
def Honours (M : LineMachine α σ ω ε) (carries : List α → Option ω) (s : σ) (l : List α) : Prop :=
  M.react s l = .skip ∧ carries l = none ∨ ∃ s', M.react s l = .take (carries l) s'

/-- A step on lines that are honoured, or kept, puts out what the lines it takes off carry. -/
theorem next_honours (h : M.next s buf = .ok (o, s', buf')) (hls : buf ++ rest = M.term.unlines ls)
    (hfirst : ∀ l ∈ ls, M.term.first ∉ l)
    (hc : ∀ l ∈ ls, M.react s l = .keep ∨ M.Honours carries s l) :
    ∃ xs ms, ls = xs ++ ms ∧ buf' ++ rest = M.term.unlines ms ∧
      xs.filterMap carries = o.toList := by
  obtain ⟨skipped, hskip, hcase⟩ := next_inv h
  have hnone (hmem : ∀ l ∈ skipped, l ∈ ls) : skipped.filterMap carries = [] := by
    refine List.filterMap_eq_nil_iff.mpr fun l hl => ?_
    have hr := (hskip l hl).2
    rcases hc l (hmem l hl) with hk | ⟨-, hnone⟩ | ⟨s', ht⟩
    · cases hk.symm.trans hr
    · exact hnone
    · cases ht.symm.trans hr
  rcases hcase with ⟨rfl, -, rfl, -⟩ | ⟨l, hl, hr, rfl⟩
  · obtain ⟨ms, rfl, hrest⟩ := M.term.exists_of_unlines_append hfirst hskip.not_mem
      (by simpa using hls)
    exact ⟨skipped, ms, rfl, hrest, hnone fun l hl => List.mem_append_left _ hl⟩
  · have hxs : ∀ x ∈ skipped ++ [l], M.term.first ∉ x :=
      List.forall_mem_append.mpr ⟨hskip.not_mem, List.forall_mem_singleton.mpr hl⟩
    obtain ⟨ms, rfl, hrest⟩ := M.term.exists_of_unlines_append hfirst hxs (by simpa using hls)
    refine ⟨skipped ++ [l], ms, rfl, hrest, ?_⟩
    rw [List.filterMap_append, hnone fun l hl => by simp [hl], List.nil_append]
    rcases hc l (by simp) with hk | ⟨hs, -⟩ | ⟨s₁, ht⟩
    · cases hk.symm.trans hr
    · cases hs.symm.trans hr
    · obtain rfl : carries l = o := (Reaction.take.inj (ht.symm.trans hr)).1
      cases hl : carries l <;> simp [hl]

/-- A step on lines that are honoured succeeds, and makes the buffer shorter when there is a
complete line in it. -/
theorem next_of_honours (hls : buf ++ rest = M.term.unlines ls)
    (hfirst : ∀ l ∈ ls, M.term.first ∉ l) (hc : ∀ l ∈ ls, M.Honours carries s l) :
    ∃ o s' buf', M.next s buf = .ok (o, s', buf') ∧
      (buf'.length < buf.length ∨ M.term.splitLine buf = none) := by
  -- a line behind skipped ones is one of the lines, and it is honoured
  have hahead {skipped : List (List α)} {l r : List α} (hskip : M.Skips s skipped)
      (hl : M.term.first ∉ l)
      (hbuf : buf = M.term.unlines skipped ++ (l ++ M.term.first :: M.term.second :: r)) :
      M.Honours carries s l := by
    have hxs : ∀ x ∈ skipped ++ [l], M.term.first ∉ x :=
      List.forall_mem_append.mpr ⟨hskip.not_mem, List.forall_mem_singleton.mpr hl⟩
    obtain ⟨ms, rfl, -⟩ := M.term.exists_of_unlines_append (s := r ++ rest) hfirst hxs
      (by rw [← hls, hbuf]; simp)
    exact hc l (by simp)
  cases hn : M.next s buf with
  | error e =>
    obtain ⟨skipped, l, r, hskip, hl, hr, hbuf⟩ := next_error_iff.mp hn
    rcases hahead hskip hl hbuf with ⟨hs, -⟩ | ⟨s', ht⟩
    · cases hs.symm.trans hr
    · cases ht.symm.trans hr
  | ok p =>
    obtain ⟨o, s', buf'⟩ := p
    refine ⟨o, s', buf', rfl, ?_⟩
    obtain ⟨skipped, hskip, ⟨-, -, hbuf, hstuck⟩ | ⟨l, hl, hr, hbuf⟩⟩ := next_inv hn
    · cases skipped with
      | nil =>
        obtain rfl : buf = buf' := hbuf
        rcases hstuck with hnone | ⟨l, r, hsplit, hkeep⟩
        · exact Or.inr hnone
        · obtain ⟨hl, hline⟩ := M.term.splitLine_eq_some_iff.mp hsplit
          rcases hahead Skips.nil hl (by simpa using hline) with ⟨hs, -⟩ | ⟨s', ht⟩
          · cases hs.symm.trans hkeep
          · cases ht.symm.trans hkeep
      | cons x skipped =>
        left
        rw [hbuf, M.term.unlines_cons]
        simp only [List.length_append, List.length_cons]
        omega
    · left
      rw [hbuf]
      simp only [List.length_append, List.length_cons]
      omega

end Honours

/-! ### Step after step -/

section Reaches

variable (M) (Q : Option ω → Prop) (P : ω → Prop)

/-- Stepping again and again, the machine comes to an output that satisfies `P`; what the steps
before have satisfies `Q`. -/
inductive Reaches : σ → List α → Prop
  | now {s s' : σ} {buf buf' : List α} {o : ω} : M.next s buf = .ok (some o, s', buf') → P o →
    Reaches s buf
  | later {s s' : σ} {buf buf' : List α} {o : Option ω} : M.next s buf = .ok (o, s', buf') → Q o →
    Reaches s' buf' → Reaches s buf

variable {M Q P}

/-- The machine comes to such an output exactly when the line is ahead of it. -/
theorem reaches_iff {s : σ} {buf : List α} : M.Reaches Q P s buf ↔ M.Ahead Q P s buf := by
  constructor
  · intro h
    induction h with
    | now hn ho =>
      obtain ⟨skipped, hskip, ⟨hnone, -⟩ | ⟨l, hl, hr, rfl⟩⟩ := next_inv hn
      · cases hnone
      · exact Ahead.of_skips hskip (.here hl hr ho)
    | later hn hq _ ih =>
      obtain ⟨skipped, hskip, ⟨-, rfl, rfl, -⟩ | ⟨l, hl, hr, rfl⟩⟩ := next_inv hn
      · exact Ahead.of_skips hskip ih
      · exact Ahead.of_skips hskip (.take hl hr hq ih)
  · intro h
    induction h with
    | here hl hr ho => exact .now (next_take hl hr) ho
    | skip hl hr _ ih =>
      cases ih with
      | now hn ho => exact .now ((next_skip hl hr).trans hn) ho
      | later hn hq h => exact .later ((next_skip hl hr).trans hn) hq h
    | take hl hr hq _ ih => exact .later (next_take hl hr) hq ih

end Reaches

/-! ### Draining -/

variable (M)

/-- Step until a step has no output, and collect the outputs. -/
def drain (s : σ) (buf : List α) : Except ε (List ω × σ × List α) :=
  match h : M.next s buf with
  | .error e => .error e
  | .ok (none, s', buf') => .ok ([], s', buf')
  | .ok (some o, s', buf') =>
    have : buf'.length < buf.length := by have := (next_length h).2 rfl; omega
    (drain s' buf').map fun p => (o :: p.1, p.2)
termination_by buf.length

variable {M}

theorem drain_none {s s' : σ} {buf buf' : List α} (h : M.next s buf = .ok (none, s', buf')) :
    M.drain s buf = .ok ([], s', buf') := by
  rw [drain]
  split <;> simp_all

theorem drain_some {s s' : σ} {o : ω} {buf buf' : List α}
    (h : M.next s buf = .ok (some o, s', buf')) :
    M.drain s buf = (M.drain s' buf').map fun p => (o :: p.1, p.2) := by
  rw [drain]
  split <;> simp_all

theorem drain_error {s : σ} {e : ε} {buf : List α} (h : M.next s buf = .error e) :
    M.drain s buf = .error e := by
  rw [drain]
  split <;> simp_all

theorem drain_stuck {s : σ} {buf : List α} (h : M.Stuck s buf) : M.drain s buf = .ok ([], s, buf) :=
  drain_none (next_stuck h)

theorem drain_skip {s : σ} {l r : List α} (hl : M.term.first ∉ l) (h : M.react s l = .skip) :
    M.drain s (l ++ M.term.first :: M.term.second :: r) = M.drain s r := by
  have hn := next_skip (r := r) hl h
  cases hr : M.next s r with
  | error e => rw [drain_error hr, drain_error (hn.trans hr)]
  | ok p =>
    obtain ⟨o, s', r'⟩ := p
    cases o with
    | none => rw [drain_none hr, drain_none (hn.trans hr)]
    | some o => rw [drain_some hr, drain_some (hn.trans hr)]

/-! ### Streams in which every line is accepted -/

/-- Draining accepted lines yields their outputs and leaves what follows them. -/
theorem drain_accepts {s s' : σ} {ls : List (List α)} {os : List ω} (h : M.Accepts s ls os s')
    {part : List α} (hpart : M.term.splitLine part = none) :
    M.drain s (M.term.unlines ls ++ part) = .ok (os, s', part) := by
  induction h with
  | nil => exact drain_stuck (Or.inl hpart)
  | skip hl hr _ ih =>
    rw [M.term.unlines_cons, List.append_assoc, List.cons_append, List.cons_append,
      drain_skip hl hr, ih]
  | take hl hr _ ih =>
    rw [M.term.unlines_cons, List.append_assoc, List.cons_append, List.cons_append,
      drain_some (next_take hl hr), ih]
    rfl

/-! ### Feeding chunks -/

variable (M)

/-- Append the chunks to the buffer one after the other and drain after each. -/
def feed (s : σ) (buf : List α) : List (List α) → Except ε (List ω × σ × List α)
  | [] => .ok ([], s, buf)
  | c :: cs =>
    match M.drain s (buf ++ c) with
    | .error e => .error e
    | .ok (os, s', buf') => (feed s' buf' cs).map fun p => (os ++ p.1, p.2)

variable {M}

theorem feed_cons {s s' : σ} {buf buf' c : List α} {os : List ω}
    (h : M.drain s (buf ++ c) = .ok (os, s', buf')) (cs : List (List α)) :
    M.feed s buf (c :: cs) = (M.feed s' buf' cs).map fun p => (os ++ p.1, p.2) := by
  rw [feed, h]

/-- A session that starts with a chunk drains it and goes on from there. -/
theorem feed_cons_inv {s s' : σ} {buf buf' c : List α} {cs : List (List α)} {os : List ω}
    (h : M.feed s buf (c :: cs) = .ok (os, s', buf')) :
    ∃ os₁ s₁ buf₁ os₂, M.drain s (buf ++ c) = .ok (os₁, s₁, buf₁) ∧
      M.feed s₁ buf₁ cs = .ok (os₂, s', buf') ∧ os = os₁ ++ os₂ := by
  cases hd : M.drain s (buf ++ c) with
  | error e => rw [feed, hd] at h; cases h
  | ok p =>
    obtain ⟨os₁, s₁, buf₁⟩ := p
    rw [feed_cons hd] at h
    obtain ⟨⟨os₂, s₂, buf₂⟩, hf, h⟩ := Except.map_eq_ok.mp h
    obtain ⟨rfl, hrest⟩ := Prod.mk.inj h
    obtain ⟨rfl, rfl⟩ := Prod.mk.inj hrest
    exact ⟨os₁, s₁, buf₁, os₂, rfl, hf, rfl⟩

/-- Chunks that make up a prefix of a stream of accepted lines: the lines they complete are
processed, and the buffer holds the part of the next line that has arrived. -/
theorem feed_accepts_part {s s' : σ} {ls : List (List α)} {os : List ω} (h : M.Accepts s ls os s')
    {buf rest : List α} {cs : List (List α)} (hcs : buf ++ cs.flatten ++ rest = M.term.unlines ls)
    (hbuf : M.term.splitLine buf = none) :
    ∃ done todo os₁ os₂ s₁ part, ls = done ++ todo ∧ os = os₁ ++ os₂ ∧
      M.Accepts s done os₁ s₁ ∧ M.Accepts s₁ todo os₂ s' ∧
      buf ++ cs.flatten = M.term.unlines done ++ part ∧ part ++ rest = M.term.unlines todo ∧
      M.term.splitLine part = none ∧ M.feed s buf cs = .ok (os₁, s₁, part) := by
  induction cs generalizing s ls os buf with
  | nil =>
    exact ⟨[], ls, [], os, s, buf, rfl, rfl, .nil, h, by simp, by simpa using hcs, hbuf, rfl⟩
  | cons c cs ih =>
    obtain ⟨done, todo, part, rfl, hpre, hrest, hpart⟩ :=
      M.term.exists_split_of_unlines_append h.not_mem
        (p := buf ++ c) (m := cs.flatten ++ rest) (by simpa using hcs)
    obtain ⟨s₁, os₁, os₂, rfl, h₁, h₂⟩ := h.of_append
    obtain ⟨done', todo', os₁', os₂', s₂, part', rfl, rfl, ha, hb, hsplit, hrest', hpart', hfeed⟩ :=
      ih h₂ (by simpa using hrest) hpart
    refine ⟨done ++ done', todo', os₁ ++ os₁', os₂', s₂, part', by simp, by simp, h₁.append ha, hb,
      ?_, hrest', hpart', ?_⟩
    · rw [List.flatten_cons, ← List.append_assoc, hpre, List.append_assoc, hsplit,
        M.term.unlines_append, List.append_assoc]
    · have hdrain : M.drain s (buf ++ c) = .ok (os₁, s₁, part) := by
        rw [hpre]; exact drain_accepts h₁ hpart
      rw [feed_cons hdrain, hfeed]
      rfl

/-- **Fragmentation does not matter.** However a stream of accepted lines is cut into chunks, the
outputs and the final state are those of the lines, and the buffer ends empty. -/
theorem feed_accepts {s s' : σ} {ls : List (List α)} {os : List ω} (h : M.Accepts s ls os s')
    {cs : List (List α)} (hcs : cs.flatten = M.term.unlines ls) :
    M.feed s [] cs = .ok (os, s', []) := by
  have hall : [] ++ cs.flatten ++ [] = M.term.unlines ls := by simpa using hcs
  obtain ⟨done, todo, os₁, os₂, s₁, part, rfl, rfl, h₁, h₂, -, hrest, hpart, hfeed⟩ :=
    feed_accepts_part h hall M.term.splitLine_nil
  rw [List.append_nil] at hrest
  cases h₂ with
  | nil => simpa [hrest] using hfeed
  -- a line that is still to come would be complete in `part`
  | skip hl _ _ | take hl _ _ =>
    rw [hrest, M.term.unlines_cons, M.term.splitLine_line hl] at hpart
    cases hpart

end LineMachine

end Framing
