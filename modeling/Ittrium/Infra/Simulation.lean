import Ittrium.Infra.Run
import Mathlib.Data.List.Forall2

/-!
# Simulations

* `Simulation` — every step of a system is made by another one, with the same label
* `InStep` — two runs with the same labels, related event by event
* `Simulation.run` — **every run of the system is followed by one of the other**
-/

namespace Ittrium.Infra

variable {σ τ ℓ : Type*}

/-- The system `init₁`, `step₁` does nothing that `init₂`, `step₂` does not do. -/
structure Simulation (init₁ : σ → Prop) (step₁ : σ → ℓ → σ → Prop) (init₂ : τ → Prop)
    (step₂ : τ → ℓ → τ → Prop) (R : σ → τ → Prop) : Prop where
  start : ∀ s, init₁ s → ∃ a, init₂ a ∧ R s a
  step : ∀ s a l s', R s a → step₁ s l s' → ∃ a', step₂ a l a' ∧ R s' a'

/-- The events have the same labels, and related states before and after. -/
def InStep (R : σ → τ → Prop) : List (Event σ ℓ) → List (Event τ ℓ) → Prop :=
  List.Forall₂ fun e f => e.label = f.label ∧ R e.pre f.pre ∧ R e.post f.post

variable {init₁ : σ → Prop} {step₁ : σ → ℓ → σ → Prop} {init₂ : τ → Prop}
  {step₂ : τ → ℓ → τ → Prop} {R : σ → τ → Prop}
  {tr : List (Event σ ℓ)} {s : σ}

namespace Simulation

/-- **Every run of the system is followed by one of the other.** -/
theorem run (hsim : Simulation init₁ step₁ init₂ step₂ R) (h : Run init₁ step₁ tr s) :
    ∃ tr' a, Run init₂ step₂ tr' a ∧ InStep R tr tr' ∧ R s a := by
  induction h with
  | start hi =>
    obtain ⟨a, ha, hR⟩ := hsim.start _ hi
    exact ⟨[], a, .start ha, .nil, hR⟩
  | @step tr s s' l _ hs ih =>
    obtain ⟨tr', a, hrun, hf, hR⟩ := ih
    obtain ⟨a', ha, hR'⟩ := hsim.step _ _ _ _ hR hs
    exact ⟨⟨a, l, a'⟩ :: tr', a', hrun.step ha, .cons ⟨rfl, hR, hR'⟩ hf, hR'⟩

end Simulation

end Ittrium.Infra
