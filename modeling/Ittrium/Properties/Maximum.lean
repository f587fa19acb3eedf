import Ittrium.Properties.Semaphores

/-!
# The maximum of a semaphore

* `WithinMax` — the count is within its bounds, and a signal at the maximum is refused
* `sem_within_max` — **it is so in every run, if it is so in the packet**
-/

namespace Ittrium

open Infra

variable {cfg : Config} {i : SemIx cfg} {tr : Trace cfg} {s s' : Kernel cfg}
  {a a' : Spec.Model cfg} {c : Call cfg} {r : Ret cfg}

/-- The count is within its bounds. A signal is refused exactly if nobody waits and the count is
at its maximum. -/
structure WithinMax (i : SemIx cfg) (s : Kernel cfg) : Prop where
  nonneg : 0 ≤ (s.core.semcb i).semcnt
  le : (s.core.semcb i).semcnt ≤ (s.core.semcb i).maxsem
  signal : ∀ c, Spec.Signals i c → ∃ s' r, exec c s = .ok (s', r) ∧
    (r = .er .ok ∨ r = .er .qovr) ∧
    (r = .er .qovr ↔
      waiters (.sem i) s = [] ∧ (s.core.semcb i).semcnt = (s.core.semcb i).maxsem)

/-- A signal of an existing semaphore returns. -/
theorem Models.signal_returns (h : Models s a) (hc : Spec.Signals i c)
    (hs : (a.core.semcb i).obj.state ≠ .noexs) :
    ∃ s' r b, exec c s = .ok (s', r) ∧ Spec.SigSem i a r b := by
  have hret : ∀ {semid : Int}, getSemcb semid = .ok i →
      ∃ v, Spec._sigSem semid a = .ok v := by
    intro semid hi
    unfold Spec._sigSem
    rw [Spec.badSemid_of_ok hi, hi]
    dsimp only [bind, Except.bind]
    rw [if_neg (by simp), if_neg hs]
    split
    · exact ⟨_, rfl⟩
    · split <;> exact ⟨_, rfl⟩
  have hspec : (∀ core, Spec.Sound core c) ∧ ∃ v, Spec.exec c a = .ok v := by
    cases c with
    | sigSem semid =>
      obtain ⟨v, hv⟩ := hret hc
      exact ⟨fun _ => trivial, _, show Spec.dispatchAll _ = _ by rw [hv]; rfl⟩
    | isigSem semid => exact ⟨fun _ => trivial, hret hc⟩
    | _ => exact hc.elim
  obtain ⟨hsound, v, hv⟩ := hspec
  have hsame := Refine.exec_same h.refines h.inv (hsound a.core)
  rw [hv] at hsame
  cases hx : exec c s with
  | error e =>
    rw [hx] at hsame
    cases hsame
  | ok w =>
    obtain ⟨a', he, -⟩ := h.step (hsound s.core) hx
    obtain ⟨b, hb, -⟩ := Spec.exec_sigSem hc hs he
    exact ⟨w.1, w.2, b, rfl, hb⟩

/-- What is known of the count when the semaphore has been created with sound counts. -/
structure MaxInv (i : SemIx cfg) (pk : TCsem) (tr : Trace cfg) (a : Spec.Model cfg) : Prop
    extends SemInv i pk.isemcnt.toNat tr a where
  maxsem : (a.core.semcb i).maxsem = pk.maxsem.toNat
  le : (a.core.semcb i).semcnt ≤ (a.core.semcb i).maxsem

theorem MaxInv.step {C : Kernel cfg → Call cfg → Prop} {pk : TCsem} (h : MaxInv i pk tr a)
    (hm : Moves C s a c r s' a') (hdel : ¬ Deletes (.sem i) c) :
    MaxInv i pk (⟨s, (c, r), s'⟩ :: tr) a' := by
  have hcb : (a'.core.semcb i).maxsem = (a.core.semcb i).maxsem ∧
      ((a'.core.semcb i).semcnt ≤ (a.core.semcb i).semcnt ∨
        (a'.core.semcb i).semcnt ≤ (a.core.semcb i).maxsem) := by
    cases hm.semStep h.existing hdel with
    | handed _ _ _ _ _ hcb => exact ⟨by rw [hcb], Or.inl (by rw [hcb])⟩
    | still _ _ hcb => exact ⟨by rw [hcb], Or.inl (by rw [hcb])⟩
    | taken _ _ _ _ hcb =>
      rw [hcb]
      exact ⟨rfl, Or.inl (by dsimp only; omega)⟩
    | counted hc hr hq _ hcb =>
      -- the signal has been counted, so the count was below the maximum
      obtain ⟨b, hb, -⟩ := Spec.exec_sigSem hc h.existing hm.spec
      rw [hcb]
      refine ⟨rfl, Or.inr ?_⟩
      subst hr
      cases hb with
      | served hq' =>
        rw [hq] at hq'
        cases hq'
      | counted _ hlt =>
        dsimp only
        omega
  obtain ⟨hmax, hle⟩ := hcb
  have hle₀ := h.le
  refine ⟨h.toSemInv.step hm hdel, hmax.trans h.maxsem, ?_⟩
  rw [hmax]
  rcases hle with hle | hle
  · exact hle.trans hle₀
  · exact hle

theorem MaxInv.start {C : Kernel cfg → Call cfg → Prop} {semid : Int} {pk : TCsem}
    (hi : getSemcb semid = .ok i) (hl : Spec.CreatesSem semid pk c r)
    (hle : pk.isemcnt.toNat ≤ pk.maxsem.toNat) (hm : Moves C s a c r s' a') :
    MaxInv i pk [] a' := by
  have hcb := created_semcb hi hl hm.spec
  refine ⟨.start hi hl hm, by rw [hcb], ?_⟩
  rw [hcb]
  exact Int.ofNat_le.mpr hle

theorem MaxInv.withinMax {pk : TCsem} (h : MaxInv i pk tr a) (hm : Models s a) :
    WithinMax i s := by
  have ho : (s.core.objcb (.sem i)).state ≠ .noexs := by
    rw [hm.refines.core]
    exact h.existing
  refine ⟨by rw [hm.refines.core]; exact h.nonneg, by rw [hm.refines.core]; exact h.le, ?_⟩
  intro c hc
  obtain ⟨s', r, b, hx, hb⟩ := hm.signal_returns hc h.existing
  refine ⟨s', r, hx, ?_⟩
  rw [hm.waiters_eq _ ho, hm.refines.core]
  have hle := h.le
  cases hb with
  | served hq => exact ⟨Or.inl rfl, by simp [hq]⟩
  | counted _ hlt => exact ⟨Or.inl rfl, by simp [hlt.ne]⟩
  | full hq hge => exact ⟨Or.inr rfl, by simp [hq, le_antisymm hle hge]⟩

/-- **The count of a semaphore stays within its maximum.** After `cre_sem` or `acre_sem` has
succeeded it does so in every run up to the deletion, and `E_QOVR` tells that the maximum is
reached, if and only if the initial count was within the maximum. The kernel compares both with
`TMAX_MAXSEM`, and not with each other. -/
theorem sem_within_max {semid : Int} {pk : TCsem} {l : Label cfg} {s₀ s₁ : Kernel cfg}
    {tr₀ : Trace cfg} (hi : getSemcb semid = .ok i) (hl : Spec.CreatesSem semid pk l.1 l.2)
    (h₀ : RunOf SoundCall tr₀ s₀) (hs : StepOf SoundCall s₀ l s₁) :
    (∀ tr s, SinceOf SoundCall (fun _ c => ¬ Deletes (.sem i) c) s₀ l s₁ tr s → WithinMax i s) ↔
      pk.isemcnt.toNat ≤ pk.maxsem.toNat := by
  constructor
  · intro h
    obtain ⟨a₀, a₁, hm⟩ := RunOf.moves (fun _ _ h => h) h₀ hs
    have hle := (h [] s₁ ⟨⟨tr₀, h₀⟩, hs, .start rfl⟩).le
    rw [hm.post.refines.core, created_semcb hi hl hm.spec] at hle
    exact Int.ofNat_le.mp hle
  · intro hle tr s h
    obtain ⟨a, hm, hinv⟩ := h.lift (P := MaxInv i pk) (fun _ _ h => h)
      (fun _ _ hm => .start hi hl hle hm) fun _ _ _ _ _ _ _ hm h => h.step hm hm.call.2
    exact hinv.withinMax hm

/-- Two resources and a maximum of two are within it. -/
theorem sem_within_max_full : ∃ s : Kernel smallConfig,
    WithinMax 0 s ∧ (s.core.semcb 0).semcnt = 2 := by
  obtain ⟨s₀, l, s₁, tr, s, h, hl, hr, hcnt⟩ := exists_sinceOf (C := SoundCall)
    (D := fun _ c => ¬ Deletes (.sem 0) c)
    (Q := fun _ l (_ : Trace smallConfig) s => l.2 = .er .ok ∧ (s.core.semcb 0).semcnt = 2)
    (startTasks [1, 2]) (.creSem 1 ⟨0, 2, 2⟩) [.waiSem 1, .isigSem 1, .isigSem 1] zeroed
    (by decide +kernel)
  obtain ⟨tr₀, h₀⟩ := h.before
  have hmax := sem_within_max (show getSemcb 1 = .ok 0 from rfl) (Or.inl ⟨hl, hr⟩) h₀ h.step
  exact ⟨s, hmax.mpr (by decide) tr s h, hcnt⟩

/-- `cre_sem` accepts two resources and a maximum of one. -/
theorem sem_above_max : ∃ (l : Label smallConfig) (tr : Trace smallConfig)
    (s₀ s₁ s : Kernel smallConfig),
    SinceOf SoundCall (fun _ c => ¬ Deletes (.sem 0) c) s₀ l s₁ tr s ∧
      Spec.CreatesSem 1 ⟨0, 2, 1⟩ l.1 l.2 ∧ ¬ WithinMax 0 s := by
  obtain ⟨s₀, l, s₁, tr, s, h, hl, hr, hcnt⟩ := exists_sinceOf (C := SoundCall)
    (D := fun _ c => ¬ Deletes (.sem 0) c)
    (Q := fun _ l (_ : Trace smallConfig) s => l.2 = .er .ok ∧
      (s.core.semcb 0).maxsem < (s.core.semcb 0).semcnt)
    [] (.creSem 1 ⟨0, 2, 1⟩) [] zeroed (by decide +kernel)
  exact ⟨l, tr, s₀, s₁, s, h, Or.inl ⟨hl, hr⟩, fun hw => absurd hw.le (not_le.mpr hcnt)⟩

end Ittrium
