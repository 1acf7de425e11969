import Rylr998.Lib.Except
import Rylr998.Lib.Paths

/-!
# Programs and their environment

A program reads and writes its state `π`, fails with an error `ε` or halts with `η`. What it does to
its environment is noted in its state, as a list of actions that grows (`trace`). The environment is
a labelled transition system: it moves by itself, and along the actions of the program.

`Triple P x Q` says what a program does to its state and to its environment: if `P` holds before `x`
and `x` returns, `Q` holds after it, in every state to which its actions may lead the environment.
There is a rule for each way of making a program. `Keeps P x` is the case in which `P` holds after
`x` as well. `Possible P x Q` says that `x` can return, in some environment, and has the same rules.
-/

namespace Interact

open Labelled

variable {π ε η ξ ι κ α β : Type}

/-- A program. -/
abbrev Program (π ε η α : Type) : Type := ExceptT ε (StateT π (Except η)) α

/-- The program returns. -/
def Returns (x : Program π ε η α) (p : π) (r : Except ε α) (p' : π) : Prop :=
  x.run.run p = .ok (r, p')

/-- Run the program and go on with what it returns, be it an error. -/
def attempt (x : Program π ε η α) : Program π ε η (Except ε α) := ExceptT.lift x.run

/-- Look at the state, and fail when what is found there is an error. -/
def ask (f : π → Except ε α) : Program π ε η α := fun p => .ok (f p, p)

/-- An environment, and where a program notes what it does to it. -/
structure Setting (π ξ ι κ : Type) where
  trace : π → List κ
  step : ξ → ι → ξ → Prop
  /-- The action of the program that a move of the environment shows. -/
  shows : ι → Option κ

variable (E : Setting π ξ ι κ)

/-- A Hoare triple. -/
structure Triple (P : π → ξ → Prop) (x : Program π ε η α) (Q : Except ε α → π → ξ → Prop) :
    Prop where
  /-- The program forgets no action. -/
  grows : ∀ {p r p'}, Returns x p r p' → E.trace p <+: E.trace p'
  post : ∀ {p r p' e e' actions}, P p e → Returns x p r p' → E.trace p' = E.trace p ++ actions →
    Seen E.step E.shows e actions e' → Q r p' e'

variable {E} {P P' : π → ξ → Prop} {x : Program π ε η α} {Q Q' : Except ε α → π → ξ → Prop}

theorem returns_pure_iff {a : α} {p p' : π} {r : Except ε α} :
    Returns (pure a : Program π ε η α) p r p' ↔ r = .ok a ∧ p' = p := by
  constructor
  · intro h
    cases h
    exact ⟨rfl, rfl⟩
  · rintro ⟨rfl, rfl⟩
    rfl

theorem returns_throw_iff {a : ε} {p p' : π} {r : Except ε α} :
    Returns (throw a : Program π ε η α) p r p' ↔ r = .error a ∧ p' = p := by
  constructor
  · intro h
    cases h
    exact ⟨rfl, rfl⟩
  · rintro ⟨rfl, rfl⟩
    rfl

theorem returns_ask_iff {f : π → Except ε α} {p p' : π} {r : Except ε α} :
    Returns (ask f : Program π ε η α) p r p' ↔ r = f p ∧ p' = p := by
  constructor
  · intro h
    cases h
    exact ⟨rfl, rfl⟩
  · rintro ⟨rfl, rfl⟩
    rfl

theorem returns_modify_iff {f : π → π} {p p' : π} {r : Except ε PUnit} :
    Returns (modify f : Program π ε η PUnit) p r p' ↔ r = .ok ⟨⟩ ∧ p' = f p := by
  constructor
  · intro h
    cases h
    exact ⟨rfl, rfl⟩
  · rintro ⟨rfl, rfl⟩
    rfl

theorem returns_bind_iff {f : α → Program π ε η β} {p p' : π} {r : Except ε β} :
    Returns (x >>= f) p r p' ↔ (∃ a, r = .error a ∧ Returns x p (.error a) p') ∨
      ∃ a p₁, Returns x p (.ok a) p₁ ∧ Returns (f a) p₁ r p' := by
  have hbind : (x >>= f).run.run p = x.run.run p >>= fun q => match q.1 with
      | .ok a => (f a).run.run q.2
      | .error a => .ok (.error a, q.2) := by
    show ((x.run >>= _ : StateT π (Except η) (Except ε β)).run p) = _
    rw [StateT.run_bind]
    congr 1
    funext q
    obtain ⟨a | a, p₁⟩ := q <;> rfl
  unfold Returns
  rw [hbind, Except.bind_eq_ok]
  constructor
  · rintro ⟨⟨a | a, p₁⟩, hx, hf⟩
    · cases hf
      exact Or.inl ⟨a, rfl, hx⟩
    · exact Or.inr ⟨a, p₁, hx, hf⟩
  · rintro (⟨a, rfl, hx⟩ | ⟨a, p₁, hx, hf⟩)
    · exact ⟨(.error a, p'), hx, rfl⟩
    · exact ⟨(.ok a, p₁), hx, hf⟩

/-- A program returns without an error when its parts do. -/
theorem returns_bind_ok_iff {f : α → Program π ε η β} {p p' : π} {b : β} :
    Returns (x >>= f) p (.ok b) p' ↔
      ∃ a p₁, Returns x p (.ok a) p₁ ∧ Returns (f a) p₁ (.ok b) p' := by
  rw [returns_bind_iff]
  exact or_iff_right fun ⟨_, h, _⟩ => nomatch h

theorem returns_attempt_iff {p p' : π} {r : Except ε (Except ε α)} :
    Returns (attempt x) p r p' ↔ ∃ r₀, r = .ok r₀ ∧ Returns x p r₀ p' := by
  have hattempt : (attempt x).run.run p = (x.run.run p).map fun q => (.ok q.1, q.2) := by
    show ((Except.ok <$> x.run : StateT π (Except η) (Except ε (Except ε α))).run p) = _
    rw [StateT.run_map]
    rfl
  unfold Returns
  rw [hattempt, Except.map_eq_ok]
  constructor
  · rintro ⟨⟨r₀, p₁⟩, hx, h⟩
    cases h
    exact ⟨r₀, rfl, hx⟩
  · rintro ⟨r₀, rfl, hx⟩
    exact ⟨(r₀, p'), hx, rfl⟩

/-- What the environment does by itself leaves `P` true. -/
structure Stable (E : Setting π ξ ι κ) (P : π → ξ → Prop) : Prop where
  keeps : ∀ {p e e'}, P p e → Seen E.step E.shows e [] e' → P p e'

namespace Triple

/-- A program that does nothing to its environment. -/
theorem quiet (hQ : ∀ r, Stable E (Q r)) (htrace : ∀ {p r p'}, Returns x p r p' →
      E.trace p' = E.trace p) (hpost : ∀ {p r p' e}, P p e → Returns x p r p' → Q r p' e) :
    Triple E P x Q where
  grows h := htrace h ▸ List.prefix_refl _
  post := by
    intro p r p' e e' actions hp hx hactions hseen
    rw [htrace hx, List.self_eq_append_right] at hactions
    exact (hQ r).keeps (hpost hp hx) (hactions ▸ hseen)

theorem pure (hQ : ∀ r, Stable E (Q r)) (a : α) :
    Triple E (Q (.ok a)) (Pure.pure a : Program π ε η α) Q := by
  refine quiet hQ ?_ ?_
  · intro p r p' h
    rw [(returns_pure_iff.mp h).2]
  · intro p r p' e hp h
    obtain ⟨rfl, rfl⟩ := returns_pure_iff.mp h
    exact hp

theorem throw (hQ : ∀ r, Stable E (Q r)) (a : ε) :
    Triple E (Q (.error a)) (MonadExcept.throw a : Program π ε η α) Q := by
  refine quiet hQ ?_ ?_
  · intro p r p' h
    rw [(returns_throw_iff.mp h).2]
  · intro p r p' e hp h
    obtain ⟨rfl, rfl⟩ := returns_throw_iff.mp h
    exact hp

theorem ask (hQ : ∀ r, Stable E (Q r)) (f : π → Except ε α) :
    Triple E (fun p e => Q (f p) p e) (Interact.ask f : Program π ε η α) Q := by
  refine quiet hQ ?_ ?_
  · intro p r p' h
    rw [(returns_ask_iff.mp h).2]
  · intro p r p' e hp h
    obtain ⟨rfl, rfl⟩ := returns_ask_iff.mp h
    exact hp

theorem modify {f : π → π} {Q : Except ε PUnit → π → ξ → Prop} (hQ : ∀ r, Stable E (Q r))
    (htrace : ∀ p, E.trace (f p) = E.trace p) : Triple E (fun p e => Q (.ok ⟨⟩) (f p) e)
      (modify f : Program π ε η PUnit) Q := by
  refine quiet hQ ?_ ?_
  · intro p r p' h
    rw [(returns_modify_iff.mp h).2, htrace]
  · intro p r p' e hp h
    obtain ⟨rfl, rfl⟩ := returns_modify_iff.mp h
    exact hp

theorem bind {f : α → Program π ε η β} {R : Except ε β → π → ξ → Prop} (hx : Triple E P x Q)
    (hf : ∀ a, Triple E (Q (.ok a)) (f a) R)
    (herror : ∀ {a p e}, Q (.error a) p e → R (.error a) p e) : Triple E P (x >>= f) R where
  grows := by
    intro p r p' h
    rcases returns_bind_iff.mp h with ⟨a, -, h⟩ | ⟨a, p₁, h, h'⟩
    · exact hx.grows h
    · exact (hx.grows h).trans ((hf a).grows h')
  post := by
    intro p r p' e e' actions hp h hactions hseen
    rcases returns_bind_iff.mp h with ⟨a, rfl, hret⟩ | ⟨a, p₁, hret, hret'⟩
    · exact herror (hx.post hp hret hactions hseen)
    · obtain ⟨actions₁, h₁⟩ := hx.grows hret
      obtain ⟨actions₂, h₂⟩ := (hf a).grows hret'
      obtain rfl : actions = actions₁ ++ actions₂ := by
        rw [← h₂, ← h₁, List.append_assoc] at hactions
        exact (List.append_cancel_left hactions).symm
      obtain ⟨e₁, hseen₁, hseen₂⟩ := hseen.append_inv
      exact (hf a).post (hx.post hp hret h₁.symm hseen₁) hret' h₂.symm hseen₂

theorem attempt (h : Triple E P x Q) : Triple E P (Interact.attempt x)
    fun r p e => ∃ r₀, r = .ok r₀ ∧ Q r₀ p e where
  grows := by
    intro p r p' hx
    obtain ⟨r₀, -, hx⟩ := returns_attempt_iff.mp hx
    exact h.grows hx
  post := by
    intro p r p' e e' actions hp hx hactions hseen
    obtain ⟨r₀, rfl, hret⟩ := returns_attempt_iff.mp hx
    exact ⟨r₀, rfl, h.post hp hret hactions hseen⟩

theorem weaken (h : Triple E P x Q) (hP : ∀ {p e}, P' p e → P p e)
    (hQ : ∀ {r p e}, Q r p e → Q' r p e) : Triple E P' x Q' where
  grows := h.grows
  post hp hx hactions hseen := hQ (h.post (hP hp) hx hactions hseen)

/-- What is true of the state of the program and left true by it. -/
theorem frame {F : π → Prop} (h : Triple E P x Q)
    (hF : ∀ {p r p'}, Returns x p r p' → F p → F p') :
    Triple E (fun p e => P p e ∧ F p) x fun r p e => Q r p e ∧ F p where
  grows := h.grows
  post hp hx hactions hseen := ⟨h.post hp.1 hx hactions hseen, hF hx hp.2⟩

/-- A fact about neither the program nor its environment. -/
theorem assuming {φ : Prop} (hx : Triple E P' x Q') (h : φ → Triple E P x Q) :
    Triple E (fun p e => φ ∧ P p e) x Q where
  grows := hx.grows
  post hp hret hactions hseen := (h hp.1).post hp.2 hret hactions hseen

theorem or (h : Triple E P x Q) (h' : Triple E P' x Q) :
    Triple E (fun p e => P p e ∨ P' p e) x Q where
  grows := h.grows
  post hp hx hactions hseen :=
    hp.elim (h.post · hx hactions hseen) (h'.post · hx hactions hseen)

end Triple

/-! ### What a program keeps -/

/-- The program keeps `P`, however it returns. -/
def Keeps (E : Setting π ξ ι κ) (P : π → ξ → Prop) (x : Program π ε η α) : Prop :=
  Triple E P x fun _ => P

namespace Keeps

theorem pure (hP : Stable E P) (a : α) : Keeps E P (Pure.pure a : Program π ε η α) :=
  Triple.pure (fun _ => hP) a

theorem throw (hP : Stable E P) (a : ε) :
    Keeps E P (MonadExcept.throw a : Program π ε η α) :=
  Triple.throw (fun _ => hP) a

theorem ask (hP : Stable E P) (f : π → Except ε α) :
    Keeps E P (Interact.ask f : Program π ε η α) :=
  Triple.ask (fun _ => hP) f

theorem modify {f : π → π} (hP : Stable E P) (htrace : ∀ p, E.trace (f p) = E.trace p)
    (hf : ∀ {p e}, P p e → P (f p) e) : Keeps E P (modify f : Program π ε η PUnit) :=
  (Triple.modify (fun _ => hP) htrace).weaken hf id

theorem bind {f : α → Program π ε η β} (hx : Keeps E P x) (hf : ∀ a, Keeps E P (f a)) :
    Keeps E P (x >>= f) :=
  Triple.bind hx hf id

theorem attempt (hx : Keeps E P x) : Keeps E P (Interact.attempt x) := by
  refine (Triple.attempt hx).weaken id ?_
  rintro r p e ⟨-, -, h⟩
  exact h

theorem forM {o : Option α} {f : α → Program π ε η PUnit} (hP : Stable E P)
    (hf : ∀ a, o = some a → Keeps E P (f a)) : Keeps E P (o.forM f) := by
  cases o with
  | none => exact .pure hP PUnit.unit
  | some a => exact hf a rfl

end Keeps

/-! ### What a program can do -/

/-- From `P` the program can return without an error, and have `Q` after it. -/
structure Possible (E : Setting π ξ ι κ) (P : π → ξ → Prop) (x : Program π ε η α)
    (Q : α → π → ξ → Prop) : Prop where
  returns : ∀ {p e}, P p e → ∃ a p' actions e', Returns x p (.ok a) p' ∧
    E.trace p' = E.trace p ++ actions ∧ Seen E.step E.shows e actions e' ∧ Q a p' e'

namespace Possible

variable {Q Q' : α → π → ξ → Prop}

theorem pure (a : α) : Possible E (Q a) (Pure.pure a : Program π ε η α) Q where
  returns {p e} h := ⟨a, p, [], e, rfl, (List.append_nil _).symm, ⟨[], .nil e, rfl⟩, h⟩

theorem modify {f : π → π} {Q : PUnit → π → ξ → Prop} (htrace : ∀ p, E.trace (f p) = E.trace p) :
    Possible E (fun p e => Q ⟨⟩ (f p) e) (modify f : Program π ε η PUnit) Q where
  returns {p e} h := ⟨⟨⟩, f p, [], e, rfl, (htrace p).trans (List.append_nil _).symm,
    ⟨[], .nil e, rfl⟩, h⟩

theorem bind {f : α → Program π ε η β} {R : β → π → ξ → Prop} (hx : Possible E P x Q)
    (hf : ∀ a, Possible E (Q a) (f a) R) : Possible E P (x >>= f) R where
  returns := by
    intro p e h
    obtain ⟨a, p₁, actions, e₁, hx, htrace, hseen, hQ⟩ := hx.returns h
    obtain ⟨b, p', actions', e', hfx, htrace', hseen', hR⟩ := (hf a).returns hQ
    refine ⟨b, p', actions ++ actions', e', returns_bind_iff.mpr (Or.inr ⟨a, p₁, hx, hfx⟩), ?_,
      hseen.append hseen', hR⟩
    rw [htrace', htrace, List.append_assoc]

theorem weaken (h : Possible E P x Q) (hP : ∀ {p e}, P' p e → P p e)
    (hQ : ∀ {a p e}, Q a p e → Q' a p e) : Possible E P' x Q' where
  returns := by
    intro p e hp
    obtain ⟨a, p', actions, e', hx, htrace, hseen, hq⟩ := h.returns (hP hp)
    exact ⟨a, p', actions, e', hx, htrace, hseen, hQ hq⟩

theorem attempt (h : Possible E P x Q) : Possible E P (Interact.attempt x)
    fun r p e => ∃ a, r = .ok a ∧ Q a p e where
  returns := by
    intro p e hp
    obtain ⟨a, p', actions, e', hx, htrace, hseen, hq⟩ := h.returns hp
    exact ⟨.ok a, p', actions, e', returns_attempt_iff.mpr ⟨_, rfl, hx⟩, htrace, hseen, a, rfl, hq⟩

end Possible

end Interact
