import Mathlib.Data.List.Basic

/-!
# Paths of labelled transition systems

A system moves from state to state by `step : σ → ι → σ → Prop`, and each move has a label `ι`.
`Path step s ls s'` performs moves with the labels `ls`, one after the other. An observer sees of a
label only what `f` shows of it: `Seen step f s os s'` is a path that shows `os`. Both are cut in
two where the list of labels is (`Path.append_inv`, `Seen.append_inv`).

`sync` puts a second system beside the first, which moves along with what `f` shows of a move. A
path of the two is a path of each (`Path.sync_fst`, `Path.sync_snd`, `Path.sync_of`).
-/

namespace Labelled

variable {σ τ ι ο : Type*}

/-- Moves with the labels `ls` lead from `s` to `s'`. -/
inductive Path (step : σ → ι → σ → Prop) : σ → List ι → σ → Prop
  | nil (s : σ) : Path step s [] s
  | cons {s s₁ s' : σ} {l : ι} {ls : List ι} : step s l s₁ → Path step s₁ ls s' →
    Path step s (l :: ls) s'

/-- Moves that show `os` lead from `s` to `s'`. -/
def Seen (step : σ → ι → σ → Prop) (f : ι → Option ο) (s : σ) (os : List ο) (s' : σ) : Prop :=
  ∃ ls, Path step s ls s' ∧ ls.filterMap f = os

/-- Two systems: the second one moves along with what `f` shows of a move of the first. -/
inductive sync (step : σ → ι → σ → Prop) (f : ι → Option ο) (step' : τ → ο → τ → Prop) :
    σ × τ → ι → σ × τ → Prop
  | alone {s s' : σ} {t : τ} {l : ι} : step s l s' → f l = none →
    sync step f step' (s, t) l (s', t)
  | together {s s' : σ} {t t' : τ} {l : ι} {o : ο} : step s l s' → f l = some o → step' t o t' →
    sync step f step' (s, t) l (s', t')

/-- A system that keeps a record of its labels. -/
def record (log : List ο) (o : ο) (log' : List ο) : Prop := log' = log ++ [o]

variable {step : σ → ι → σ → Prop} {step' : τ → ο → τ → Prop} {f : ι → Option ο} {s s₁ s' : σ}

namespace Path

theorem single {l : ι} (h : step s l s') : Path step s [l] s' := .cons h (.nil s')

theorem append {ls ms : List ι} (h : Path step s ls s₁) (h' : Path step s₁ ms s') :
    Path step s (ls ++ ms) s' := by
  induction h with
  | nil => exact h'
  | cons hstep _ ih => exact .cons hstep (ih h')

/-- A path along two lists passes through a state between them. -/
theorem append_inv {ls ms : List ι} (h : Path step s (ls ++ ms) s') :
    ∃ s₁, Path step s ls s₁ ∧ Path step s₁ ms s' := by
  induction ls generalizing s with
  | nil => exact ⟨s, .nil s, h⟩
  | cons l ls ih =>
    cases h with
    | cons hstep h =>
      obtain ⟨s₁, hl, hm⟩ := ih h
      exact ⟨s₁, .cons hstep hl, hm⟩

theorem mono {step₁ : σ → ι → σ → Prop} (hstep : ∀ {s l s'}, step s l s' → step₁ s l s')
    {ls : List ι} (h : Path step s ls s') : Path step₁ s ls s' := by
  induction h with
  | nil => exact .nil _
  | cons h _ ih => exact .cons (hstep h) ih

/-- A path along labels with which a move is one of another system. -/
theorem restrict {step₁ : σ → ι → σ → Prop} {keeps : ι → Prop}
    (hstep : ∀ {s l s'}, step s l s' → keeps l → step₁ s l s') {ls : List ι}
    (h : Path step s ls s') (hls : ∀ l ∈ ls, keeps l) : Path step₁ s ls s' := by
  induction h with
  | nil => exact .nil _
  | cons h _ ih =>
    obtain ⟨hl, hls⟩ := List.forall_mem_cons.mp hls
    exact .cons (hstep h hl) (ih hls)

/-- A path of a system that moves with some labels only. -/
theorem keeping_iff {keeps : ι → Prop} {ls : List ι} :
    Path (fun s l s' => step s l s' ∧ keeps l) s ls s' ↔ Path step s ls s' ∧ ∀ l ∈ ls, keeps l := by
  constructor
  · intro h
    induction h with
    | nil => exact ⟨.nil _, nofun⟩
    | cons hstep _ ih => exact ⟨.cons hstep.1 ih.1, List.forall_mem_cons.mpr ⟨hstep.2, ih.2⟩⟩
  · rintro ⟨h, hls⟩
    exact h.restrict (fun hstep hl => ⟨hstep, hl⟩) hls

/-- What every move keeps is kept along a path. -/
theorem invariant {I : σ → Prop} (keep : ∀ {s l s'}, step s l s' → I s → I s') {ls : List ι}
    (h : Path step s ls s') (hs : I s) : I s' := by
  induction h with
  | nil => exact hs
  | cons hstep _ ih => exact ih (keep hstep hs)

/-- What the moves of a path leave alone is at its end as it was at its start. -/
theorem frame {α : Type*} {g : σ → α} {keeps : ι → Prop}
    (keep : ∀ {s l s'}, step s l s' → keeps l → g s' = g s) {ls : List ι}
    (h : Path step s ls s') (hls : ∀ l ∈ ls, keeps l) : g s' = g s := by
  induction h with
  | nil => rfl
  | cons hstep _ ih =>
    obtain ⟨hl, hls⟩ := List.forall_mem_cons.mp hls
    exact (ih hls).trans (keep hstep hl)

theorem record_iff {log log' os : List ο} : Path record log os log' ↔ log' = log ++ os := by
  induction os generalizing log with
  | nil =>
    rw [List.append_nil]
    constructor
    · rintro ⟨⟩
      rfl
    · rintro rfl
      exact .nil _
  | cons o os ih =>
    constructor
    · rintro (_ | ⟨hstep, hpath⟩)
      rw [ih.mp hpath, show _ = _ from hstep, List.append_assoc, List.singleton_append]
    · rintro rfl
      exact .cons rfl (ih.mpr (by rw [List.append_assoc, List.singleton_append]))

theorem sync_fst {p p' : σ × τ} {ls : List ι} (h : Path (sync step f step') p ls p') :
    Path step p.1 ls p'.1 := by
  induction h with
  | nil => exact .nil _
  | cons hstep _ ih =>
    cases hstep with
    | alone hs => exact .cons hs ih
    | together hs => exact .cons hs ih

theorem sync_snd {p p' : σ × τ} {ls : List ι} (h : Path (sync step f step') p ls p') :
    Path step' p.2 (ls.filterMap f) p'.2 := by
  induction h with
  | nil => exact .nil _
  | cons hstep _ ih =>
    cases hstep with
    | alone _ hf => rwa [List.filterMap_cons_none hf]
    | together _ hf ht =>
      rw [List.filterMap_cons_some hf]
      exact .cons ht ih

theorem sync_of {t t' : τ} {ls : List ι} (h : Path step s ls s')
    (h' : Path step' t (ls.filterMap f) t') : Path (sync step f step') (s, t) ls (s', t') := by
  induction h generalizing t with
  | nil =>
    cases h'
    exact .nil _
  | @cons _ _ _ l _ hstep _ ih =>
    cases hf : f l with
    | none =>
      rw [List.filterMap_cons_none hf] at h'
      exact .cons (.alone hstep hf) (ih h')
    | some o =>
      rw [List.filterMap_cons_some hf] at h'
      cases h' with
      | cons ht h' => exact .cons (.together hstep hf ht) (ih h')

end Path

namespace Seen

theorem append {os ps : List ο} (h : Seen step f s os s₁) (h' : Seen step f s₁ ps s') :
    Seen step f s (os ++ ps) s' := by
  obtain ⟨ls, hls, rfl⟩ := h
  obtain ⟨ms, hms, rfl⟩ := h'
  exact ⟨ls ++ ms, hls.append hms, List.filterMap_append⟩

theorem mono {step₁ : σ → ι → σ → Prop} (hstep : ∀ {s l s'}, step s l s' → step₁ s l s')
    {os : List ο} (h : Seen step f s os s') : Seen step₁ f s os s' := by
  obtain ⟨ls, hls, hos⟩ := h
  exact ⟨ls, hls.mono hstep, hos⟩

/-- A path that shows two lists passes through a state between them. -/
theorem append_inv {os ps : List ο} (h : Seen step f s (os ++ ps) s') :
    ∃ s₁, Seen step f s os s₁ ∧ Seen step f s₁ ps s' := by
  obtain ⟨ls, hls, hos⟩ := h
  obtain ⟨ls₁, ls₂, rfl, hos₁, hos₂⟩ := List.filterMap_eq_append_iff.mp hos
  obtain ⟨s₁, h₁, h₂⟩ := hls.append_inv
  exact ⟨s₁, ⟨ls₁, h₁, hos₁⟩, ⟨ls₂, h₂, hos₂⟩⟩

end Seen

end Labelled
