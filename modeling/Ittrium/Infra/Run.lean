import Mathlib.Tactic.Basic

/-!
# Runs of a labelled transition system

A run is the list of its events, the latest one first, and the state it has reached. Quantities
that depend on the past (what was sent, who arrived when) are functions of that list, so nothing
has to be added to the states.

* `Run` — the runs of a system
* `Run.invariant` — **what holds at the start and is kept by every step holds in every state reached**
* `Run.not_twice` — what is made only while it is not there is not made twice
* `perform` — the run that performs given actions
-/

namespace Ittrium.Infra

/-- One step of a run. -/
structure Event (σ ℓ : Type*) where
  pre : σ
  label : ℓ
  post : σ

variable {σ ℓ : Type*}

/-- The runs that begin in `init` and go on by `step`. -/
inductive Run (init : σ → Prop) (step : σ → ℓ → σ → Prop) : List (Event σ ℓ) → σ → Prop where
  | start {s : σ} : init s → Run init step [] s
  | step {tr : List (Event σ ℓ)} {s s' : σ} {l : ℓ} :
      Run init step tr s → step s l s' → Run init step (⟨s, l, s'⟩ :: tr) s'

namespace Run

variable {init init' : σ → Prop} {step step' : σ → ℓ → σ → Prop} {tr : List (Event σ ℓ)} {s : σ}

/-- **What holds at the start and is kept by every step holds in every state reached.** -/
theorem invariant {I : σ → Prop} (hstart : ∀ s, init s → I s)
    (hstep : ∀ s l s', I s → step s l s' → I s') (h : Run init step tr s) : I s := by
  induction h with
  | start hi => exact hstart _ hi
  | step _ hs ih => exact hstep _ _ _ ih hs

/-- A run is a run of every system with more starts and more steps. -/
theorem mono (hi : ∀ s, init s → init' s) (hs : ∀ s l s', step s l s' → step' s l s')
    (h : Run init step tr s) : Run init' step' tr s := by
  induction h with
  | start h => exact .start (hi _ h)
  | step _ h ih => exact .step ih (hs _ _ _ h)

/-- Something is made twice in the run without being undone in between. -/
def Twice (makes undoes : Event σ ℓ → Prop) (tr : List (Event σ ℓ)) : Prop :=
  ∃ tr₁ e₂ tr₂ e₁ tr₃, tr = tr₁ ++ e₂ :: (tr₂ ++ e₁ :: tr₃) ∧ makes e₂ ∧ makes e₁ ∧
    ∀ e ∈ tr₂, ¬ undoes e

/-- What is made only while it is not there, and stays until it is undone, is not made twice. -/
theorem not_twice {makes undoes : Event σ ℓ → Prop} {T : σ → Prop}
    (hmake : ∀ tr s l s', Run init step tr s → step s l s' → makes ⟨s, l, s'⟩ →
      ¬ T s ∧ T s')
    (hkeep : ∀ tr s l s', Run init step tr s → step s l s' → T s → ¬ undoes ⟨s, l, s'⟩ →
      T s')
    (h : Run init step tr s) : ¬ Twice makes undoes tr := by
  -- since it was made last and not undone, it is there
  suffices hI : (∀ tr₁ e tr₂, tr = tr₁ ++ e :: tr₂ → makes e → (∀ d ∈ tr₁, ¬ undoes d) → T s) ∧
      ¬ Twice makes undoes tr from hI.2
  induction h with
  | start =>
    constructor
    · rintro tr₁ e tr₂ htr
      simp at htr
    · rintro ⟨tr₁, e₂, tr₂, e₁, tr₃, htr, -⟩
      simp at htr
  | @step tr s s' l hrun hs ih =>
    obtain ⟨hthere, htwice⟩ := ih
    constructor
    · rintro tr₁ e tr₂ htr hm hd
      cases tr₁ with
      | nil =>
        obtain ⟨rfl, -⟩ := List.cons.inj htr
        exact (hmake _ _ _ _ hrun hs hm).2
      | cons d tr₁ =>
        obtain ⟨rfl, hrest⟩ := List.cons.inj htr
        refine hkeep _ _ _ _ hrun hs (hthere tr₁ e tr₂ hrest hm fun d hd' => hd d (by simp [hd'])) ?_
        exact hd _ (by simp)
    · rintro ⟨tr₁, e₂, tr₂, e₁, tr₃, htr, h₂, h₁, hd⟩
      cases tr₁ with
      | nil =>
        obtain ⟨rfl, hrest⟩ := List.cons.inj htr
        exact (hmake _ _ _ _ hrun hs h₂).1 (hthere tr₂ e₁ tr₃ hrest h₁ hd)
      | cons e tr₁ =>
        obtain ⟨-, hrest⟩ := List.cons.inj htr
        exact htwice ⟨tr₁, e₂, tr₂, e₁, tr₃, hrest, h₂, h₁, hd⟩

/-- Every event has `P`, seen from its past. -/
def Along (P : List (Event σ ℓ) → Event σ ℓ → Prop) : List (Event σ ℓ) → Prop
  | [] => True
  | e :: tr => P tr e ∧ Along P tr

instance decidableAlong {P : List (Event σ ℓ) → Event σ ℓ → Prop} [∀ tr e, Decidable (P tr e)] :
    (tr : List (Event σ ℓ)) → Decidable (Along P tr)
  | [] => inferInstanceAs (Decidable True)
  | _ :: tr =>
    have := decidableAlong (P := P) tr
    inferInstanceAs (Decidable (_ ∧ _))

/-- What a step with `P` has after any run, all events of a run have whose events all have `P`. -/
theorem along {P Q : List (Event σ ℓ) → Event σ ℓ → Prop} (h : Run init step tr s)
    (hstep : ∀ past s l s', Run init step past s → step s l s' → P past ⟨s, l, s'⟩ →
      Q past ⟨s, l, s'⟩)
    (hp : Along P tr) : Along Q tr := by
  induction h with
  | start => trivial
  | step hrun hs ih => exact ⟨hstep _ _ _ _ hrun hs hp.1, ih hp.2⟩

/-- A run from a state another run has reached continues that run. -/
theorem append {tr₀ : List (Event σ ℓ)} {s₀ : σ} (h₀ : Run init step tr₀ s₀)
    (h : Run (· = s₀) step tr s) : Run init step (tr ++ tr₀) s := by
  induction h with
  | start h => subst h; exact h₀
  | step _ hs ih => exact .step ih hs

end Run

/-! ## Performing given actions -/

section

variable {α ρ : Type*} (f : σ → α → Option (σ × ρ)) (C : σ → α → Prop) [∀ s a, Decidable (C s a)]

/-- The actions are performed one after the other. Each must meet `C`. -/
def perform : List α → List (Event σ (α × ρ)) → σ → Option (List (Event σ (α × ρ)) × σ)
  | [], tr, s => some (tr, s)
  | a :: as, tr, s =>
    if C s a then (f s a).bind fun x => perform as (⟨s, (a, x.2), x.1⟩ :: tr) x.1 else none

variable {f C}

/-- What is performed is a run. -/
theorem perform_run {init : σ → Prop} : ∀ {as : List α} {tr tr' : List (Event σ (α × ρ))} {s s' : σ},
    Run init (fun s l s' => C s l.1 ∧ f s l.1 = some (s', l.2)) tr s →
    perform f C as tr s = some (tr', s') →
    Run init (fun s l s' => C s l.1 ∧ f s l.1 = some (s', l.2)) tr' s'
  | [], _, _, _, _, h, he => by
    cases he
    exact h
  | a :: as, _, _, s, _, h, he => by
    rw [perform] at he
    split at he
    · next hc =>
      obtain ⟨x, hx, he⟩ := Option.bind_eq_some_iff.mp he
      exact perform_run (h.step (l := (a, x.2)) ⟨hc, hx⟩) he
    · cases he

/-- What can be computed at its end is true of a run. -/
theorem exists_perform {init : σ → Prop} {s : σ} (hs : init s) (as : List α)
    (Q : List (Event σ (α × ρ)) → σ → Prop) [∀ tr s, Decidable (Q tr s)]
    (h : ((perform f C as [] s).map fun x => decide (Q x.1 x.2)) = some true) :
    ∃ tr s', Run init (fun s l s' => C s l.1 ∧ f s l.1 = some (s', l.2)) tr s' ∧ Q tr s' := by
  obtain ⟨⟨tr, s'⟩, hrun, hQ⟩ := Option.map_eq_some_iff.mp h
  exact ⟨tr, s', perform_run (.start hs) hrun, of_decide_eq_true hQ⟩

end

end Ittrium.Infra
