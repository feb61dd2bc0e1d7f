import Mathlib.Logic.Relation

/-!
# Transition systems

The induction every safety theorem rests on, proved once: a property that
holds initially and that every step preserves holds in every reachable state.
A step carries no label; a system whose actions have arguments quantifies them
inside `step`.
-/

namespace PandaOS.Lib

universe u

/-- A transition system over states `σ`. -/
structure TSys (σ : Type u) where
  init : σ → Prop
  step : σ → σ → Prop

namespace TSys

variable {σ : Type u} {T : TSys σ} {P : σ → Prop}

/-- The states some run of the system reaches. -/
inductive Reachable (T : TSys σ) : σ → Prop
  | init {s : σ} : T.init s → Reachable T s
  | step {s s' : σ} : Reachable T s → T.step s s' → Reachable T s'

/-- `P` holds in every reachable state. -/
def Invariant (T : TSys σ) (P : σ → Prop) : Prop :=
  ∀ s, T.Reachable s → P s

/-- `P` holds initially and is preserved by every step. -/
structure Inductive (T : TSys σ) (P : σ → Prop) : Prop where
  init : ∀ s, T.init s → P s
  step : ∀ s s', P s → T.step s s' → P s'

theorem Inductive.invariant (h : T.Inductive P) : T.Invariant P := by
  intro s hreach
  induction hreach with
  | init h0 => exact h.init _ h0
  | step _ hstep ih => exact h.step _ _ ih hstep

end TSys

end PandaOS.Lib
