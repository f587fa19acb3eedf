import Ittrium.Infra.Run

/-!
# Waiting for a bell

A consumer looks for work until there is none, and then waits for a bell. Whoever brings work owes
a ring. The bell is remembered if it rings while nobody waits for it.

* `Doorbell` — where the consumer is, the bell, and the work
* `Doorbell.Step` — what the two may do
* `Doorbell.Alert` — nobody waits for a bell that will not ring
* `Doorbell.alert_of_run` — **a system whose steps are such steps keeps the consumer alert**
-/

namespace Ittrium.Infra

/-- Where the consumer is. -/
inductive Vigil where
  /-- It has found no work, and comes to wait. -/
  | resigned
  | asleep
  /-- It will look for work before it waits again. -/
  | awake
  deriving DecidableEq

structure Doorbell where
  vigil : Vigil
  /-- The bell has rung since it was last heeded. -/
  rung : Bool
  /-- It has still to ring. -/
  owed : Bool
  work : Bool

namespace Doorbell

variable {d d' : Doorbell}

/-- Work that a consumer does not look for any more is announced, and none sleeps through a ring. -/
structure Alert (d : Doorbell) : Prop where
  resigned : d.vigil = .resigned → d.work = true → d.rung = true ∨ d.owed = true
  asleep : d.vigil = .asleep → d.rung = false ∧ (d.work = true → d.owed = true)

inductive Step : Doorbell → Doorbell → Prop where
  /-- Nothing of it changes. -/
  | idle (d : Doorbell) : Step d d
  /-- There may be more work, and then a ring is owed. -/
  | arrive (d : Doorbell) (more : Bool) : Step d { d with owed := true, work := d.work || more }
  /-- The bell rings for a consumer that sleeps. -/
  | wakes (d : Doorbell) (rung owed : Bool) : d.vigil = .asleep →
      Step d { d with vigil := .awake, rung, owed }
  /-- The bell rings for nobody, and is remembered. -/
  | rings (d : Doorbell) (owed : Bool) : d.vigil ≠ .asleep → Step d { d with rung := true, owed }
  /-- The consumer does not wait, since the bell has rung. -/
  | heeds (d : Doorbell) (rung : Bool) : d.vigil = .resigned →
      Step d { d with vigil := .awake, rung }
  | sleeps (d : Doorbell) : d.vigil = .resigned → d.rung = false →
      Step d { d with vigil := .asleep }
  /-- The consumer works, and forgets a ring or does not. -/
  | works (d : Doorbell) (rung work : Bool) : d.vigil = .awake → Step d { d with rung, work }
  | resigns (d : Doorbell) : d.vigil = .awake → d.work = false →
      Step d { d with vigil := .resigned }

/-- Awake consumers are alert. -/
theorem alert_awake (h : d.vigil = .awake) : d.Alert :=
  ⟨fun hv => absurd (h.symm.trans hv) (by decide), fun hv => absurd (h.symm.trans hv) (by decide)⟩

theorem Step.alert (hs : Step d d') (h : d.Alert) : d'.Alert := by
  cases hs with
  | idle => exact h
  | arrive more => exact ⟨fun _ _ => Or.inr rfl, fun hv => ⟨(h.asleep hv).1, fun _ => rfl⟩⟩
  | wakes => exact alert_awake rfl
  | rings owed hv => exact ⟨fun _ _ => Or.inl rfl, fun hv' => absurd hv' hv⟩
  | heeds => exact alert_awake rfl
  | sleeps hv hr =>
    refine ⟨fun hv' => absurd hv' (by decide : Vigil.asleep ≠ .resigned), fun _ => ⟨hr, fun hw => ?_⟩⟩
    -- it has not rung, so it will
    rcases h.resigned hv hw with hr' | ho
    · exact absurd (hr.symm.trans hr') (by decide)
    · exact ho
  | works rung work hv => exact alert_awake hv
  | resigns hv hw =>
    exact ⟨fun _ hw' => absurd (hw.symm.trans hw') (by decide),
      fun hv' => absurd hv' (by decide : Vigil.resigned ≠ .asleep)⟩

/-- **A system whose steps are such steps keeps the consumer alert.** -/
theorem alert_of_run {σ ℓ : Type*} {init : σ → Prop} {step : σ → ℓ → σ → Prop}
    {tr : List (Event σ ℓ)} {s : σ} (door : σ → Doorbell) (hstart : ∀ s, init s → (door s).Alert)
    (hstep : ∀ tr s l s', Run init step tr s → step s l s' → Step (door s) (door s'))
    (h : Run init step tr s) : (door s).Alert := by
  induction h with
  | start hi => exact hstart _ hi
  | step hrun hs ih => exact (hstep _ _ _ _ hrun hs).alert ih

end Doorbell

end Ittrium.Infra
