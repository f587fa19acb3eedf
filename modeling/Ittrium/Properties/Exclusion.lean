import Ittrium.Properties.Semaphores
import Mathlib.Algebra.BigOperators.Fin
import Mathlib.Algebra.Order.BigOperators.Group.Finset

/-!
# Semaphores as locks

Tasks that return only what they hold never hold more than the semaphore had at first. With one
resource this is mutual exclusion, which is what `sys_mutex_lock` and `sys_mutex_unlock` rely on.

* `granted`, `returned` — what a task has been given, and what it has returned
* `Disciplined` — a signal is made for a task that holds a resource
* `sem_excludes` — **the holders are never more than the initial resources**
-/

namespace Ittrium

open Infra

variable {cfg : Config} {i : SemIx cfg} {t : TskIx cfg} {tr : Trace cfg} {s s' : Kernel cfg}
  {a a' : Spec.Model cfg} {c : Call cfg} {r : Ret cfg} {C : Kernel cfg → Call cfg → Prop}

/-! ## What a task holds -/

/-- A waiting task is given a resource in the step from `s` to `s'`. -/
def isServed (i : SemIx cfg) (s s' : Kernel cfg) (t : TskIx cfg) : Bool :=
  leaves (.sem i) s s' t && (s'.core.tcb t).ercd = .ok

/-- The resources `t` has been given, by its own calls or while it waited. -/
def granted (i : SemIx cfg) (t : TskIx cfg) : Trace cfg → Nat
  | [] => 0
  | e :: tr => granted i t tr + (if Takes i e.label ∧ e.pre.runtsk = .qnode t then 1 else 0) +
      if isServed i e.pre e.post t then 1 else 0

/-- The resources that have been returned while `t` ran. -/
def returned (i : SemIx cfg) (t : TskIx cfg) : Trace cfg → Nat
  | [] => 0
  | e :: tr => returned i t tr + if Returns i e.label ∧ e.pre.runtsk = .qnode t then 1 else 0

def holding (i : SemIx cfg) (t : TskIx cfg) (tr : Trace cfg) : Nat :=
  granted i t tr - returned i t tr

/-- A resource is returned only while a task runs that holds one. -/
def Disciplined (i : SemIx cfg) (tr : Trace cfg) (e : Event (Kernel cfg) (Label cfg)) : Prop :=
  Returns i e.label → ∃ t, e.pre.runtsk = .qnode t ∧ 0 < holding i t tr

/-! ## One step -/

/-- Who is given a resource at once runs. -/
theorem Moves.takes_running (hm : Moves C s a c r s' a')
    (hs : (a.core.semcb i).obj.state ≠ .noexs) (h : Takes i (c, r)) :
    ∃ t, s.runtsk = .qnode t := by
  obtain ⟨b, hb, -⟩ := Spec.exec_waiSem h.1 hs hm.spec
  have hrun : ∀ t, a.runtsk = some t → ∃ t, s.runtsk = .qnode t := by
    intro t ht
    exact ⟨t, by rw [hm.pre.refines.runtsk, ht, Refine.ptr_some]⟩
  cases hb with
  | obtained ht _ => exact hrun _ ht
  | failed ht _ => exact hrun _ ht
  | blocked ht _ => exact hrun _ ht

/-- What is counted for the running task is counted once. -/
theorem sum_running {P : Prop} [Decidable P] (h : P → ∃ t, s.runtsk = .qnode t) :
    (∑ t, if P ∧ s.runtsk = .qnode t then 1 else 0) = if P then 1 else 0 := by
  by_cases hP : P
  · obtain ⟨u, hu⟩ := h hP
    rw [if_pos hP, hu]
    simp only [hP, true_and, Node.qnode.injEq]
    rw [Finset.sum_ite_eq]
    exact if_pos (Finset.mem_univ u)
  · rw [if_neg hP]
    exact Finset.sum_eq_zero fun t _ => if_neg fun h => hP h.1

theorem sum_served (i : SemIx cfg) (s s' : Kernel cfg) :
    (∑ t, if isServed i s s' t then 1 else 0) = served i s s' := by
  rw [Finset.sum_boole, Nat.cast_id, served, List.countP_eq_length_filter, Fin.univ_def]
  show ((List.finRange cfg.tnumTskid).filter fun t => decide (isServed i s s' t = true)).length = _
  simp only [Bool.decide_eq_true]
  rfl

/-! ## Runs -/

/-- What the tasks hold, against the count of the semaphore. -/
structure HoldInv (i : SemIx cfg) (tr : Trace cfg) : Prop where
  paid : ∀ t, returned i t tr ≤ granted i t tr
  granted : ∑ t, granted i t tr = obtained i tr
  returned : ∑ t, returned i t tr = signals i tr

theorem HoldInv.start (i : SemIx cfg) : HoldInv i [] :=
  ⟨fun _ => Nat.le_refl 0, Finset.sum_const_zero, Finset.sum_const_zero⟩

theorem HoldInv.step (h : HoldInv i tr) (hm : Moves C s a c r s' a')
    (hs : (a.core.semcb i).obj.state ≠ .noexs) (hd : Disciplined i tr ⟨s, (c, r), s'⟩) :
    HoldInv i (⟨s, (c, r), s'⟩ :: tr) := by
  refine ⟨fun t => ?_, ?_, ?_⟩
  · have hpaid := h.paid t
    simp only [Ittrium.returned, Ittrium.granted]
    by_cases hret : Returns i (c, r) ∧ s.runtsk = .qnode t
    · -- the running task holds what is returned
      obtain ⟨hr, hrun⟩ := hret
      obtain ⟨u, hu, hpos⟩ := hd hr
      obtain rfl : u = t := Node.qnode.inj (hu.symm.trans hrun)
      unfold holding at hpos
      rw [if_pos ⟨hr, hrun⟩]
      omega
    · rw [if_neg hret]
      omega
  · simp only [Ittrium.granted, obtained]
    rw [Finset.sum_add_distrib, Finset.sum_add_distrib, h.granted,
      sum_running (hm.takes_running hs), sum_served]
  · simp only [Ittrium.returned, signals]
    rw [Finset.sum_add_distrib, h.returned, sum_running]
    intro hr
    obtain ⟨t, ht, -⟩ := hd hr
    exact ⟨t, ht⟩

theorem SinceOf.holdInv {semid : Int} {pk : TCsem} {l : Label cfg} {s₀ s₁ : Kernel cfg}
    (hi : getSemcb semid = .ok i) (hl : Spec.CreatesSem semid pk l.1 l.2)
    (h : SinceOf SoundCall (fun _ c => ¬ Deletes (.sem i) c) s₀ l s₁ tr s)
    (hd : Run.Along (Disciplined i) tr) :
    ∃ a, Models s a ∧ SemInv i pk.isemcnt.toNat tr a ∧ HoldInv i tr := by
  obtain ⟨a, hm, hinv, hhold⟩ := h.lift
    (P := fun tr a => SemInv i pk.isemcnt.toNat tr a ∧ (Run.Along (Disciplined i) tr → HoldInv i tr))
    (fun _ _ h => h) (fun _ _ hm => ⟨.start hi hl hm, fun _ => .start i⟩)
    fun _ _ _ _ _ _ _ hm h => ⟨h.1.step hm hm.call.2,
      fun hd => (h.2 hd.2).step hm h.1.existing hd.1⟩
  exact ⟨a, hm, hinv, hhold hd⟩

/-- What is held and what is left are the initial resources, so that at most so many tasks hold
one. -/
structure Excludes (i : SemIx cfg) (isemcnt : Nat) (tr : Trace cfg) (s : Kernel cfg) : Prop where
  total : (∑ t, (holding i t tr : Int)) + (s.core.semcb i).semcnt = isemcnt
  few : (Finset.univ.filter fun t => 0 < holding i t tr).card ≤ isemcnt
  /-- Nobody waits for what nobody holds. -/
  waited : waiters (.sem i) s ≠ [] → 0 < isemcnt → ∃ t, 0 < holding i t tr

/-- **The holders are never more than the initial resources**, in any run since the creation of the
semaphore in which tasks return only what they hold. -/
theorem sem_excludes {semid : Int} {pk : TCsem} {l : Label cfg} {s₀ s₁ : Kernel cfg}
    (hi : getSemcb semid = .ok i) (hl : Spec.CreatesSem semid pk l.1 l.2)
    (h : SinceOf SoundCall (fun _ c => ¬ Deletes (.sem i) c) s₀ l s₁ tr s)
    (hd : Run.Along (Disciplined i) tr) : Excludes i pk.isemcnt.toNat tr s := by
  obtain ⟨a, hm, hinv, hhold⟩ := h.holdInv hi hl hd
  have hbal := hinv.balance
  have hnn := hinv.nonneg
  have hcast : (∑ t, (holding i t tr : Int)) = obtained i tr - signals i tr := by
    rw [← hhold.granted, ← hhold.returned]
    push_cast
    rw [← Finset.sum_sub_distrib]
    exact Finset.sum_congr rfl fun t _ => Int.ofNat_sub (hhold.paid t)
  have htotal : (∑ t, (holding i t tr : Int)) + (a.core.semcb i).semcnt = pk.isemcnt.toNat := by
    omega
  have hcount : ((Finset.univ.filter fun t => 0 < holding i t tr).card : Int) ≤
      ∑ t, (holding i t tr : Int) := by
    rw [Finset.card_filter]
    push_cast
    refine Finset.sum_le_sum fun t _ => ?_
    split <;> omega
  refine ⟨by rw [hm.refines.core]; exact htotal, by omega, fun hw hpos => ?_⟩
  have ho : (s.core.objcb (.sem i)).state ≠ .noexs := by
    rw [hm.refines.core]
    exact hinv.existing
  rw [hm.waiters_eq _ ho] at hw
  by_contra hnone
  rw [hinv.nobody hw, Finset.sum_eq_zero] at htotal
  · omega
  · intro t _
    have hno : ¬ 0 < holding i t tr := fun ht => hnone ⟨t, ht⟩
    omega

instance (i : SemIx cfg) (tr : Trace cfg) (e : Event (Kernel cfg) (Label cfg)) :
    Decidable (Disciplined i tr e) :=
  inferInstanceAs (Decidable (_ → ∃ _, _ ∧ _))

/-- A lock changes hands: the second task waits for it until the first one gives it back. -/
theorem sem_excludes_handed : ∃ (tr : Trace smallConfig) (s : Kernel smallConfig),
    granted 0 0 tr = 1 ∧ holding 0 0 tr = 0 ∧ holding 0 1 tr = 1 ∧ Excludes 0 1 tr s := by
  obtain ⟨s₀, l, s₁, tr, s, h, hl, hr, hd, h₁, h₂, h₃⟩ := exists_sinceOf (C := SoundCall)
    (D := fun _ c => ¬ Deletes (.sem 0) c)
    (Q := fun _ l (tr : Trace smallConfig) _ => l.2 = .er .ok ∧ Run.Along (Disciplined 0) tr ∧
      granted 0 0 tr = 1 ∧ holding 0 0 tr = 0 ∧ holding 0 1 tr = 1)
    (startTasks [1, 2]) (.creSem 1 ⟨0, 1, 1⟩)
    [.waiSem 1, .slpTsk, .waiSem 1, .iwupTsk 1, .dispatch, .sigSem 1] zeroed (by decide +kernel)
  exact ⟨tr, s, h₁, h₂, h₃, sem_excludes (show getSemcb 1 = .ok 0 from rfl) (Or.inl ⟨hl, hr⟩) h hd⟩

end Ittrium
