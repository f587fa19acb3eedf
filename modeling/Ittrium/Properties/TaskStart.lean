import Ittrium.Infra.Areas
import Ittrium.Infra.Outcome
import Ittrium.Properties.ExitStack

/-!
# What a new task writes

* `NewTask` — a task has been created in a control block that was free
* `creTsk_writes`, `acreTsk_writes` — **creation fills the stack**
* `actTsk_writes` — **activation stores the frame the task starts with**, below the top of the stack
* `delTsk_mem` — deletion writes nothing
-/

namespace Ittrium

open Infra

variable {cfg : Config} {t : TskIx cfg} {s s' : Kernel cfg} {pk : TCtsk} {tskid i : Int} {n : Nat}

/-! ## Creation -/

/-- The task `t` has been created. -/
structure NewTask (t : TskIx cfg) (pk : TCtsk) (s s' : Kernel cfg) : Prop where
  free : (s.core.tcb t).state = .noexs
  top : (s'.core.tcb t).stk = pk.stk + pk.stksz.setWidth 64
  stack : OnlyIn (area pk.stk pk.stksz.toNat) s.core.mem s'.core.mem

theorem taskMakeDormant_onlyIn {c : Core cfg} {p : VP} {k : SIZE} (hp : (c.tcb t).stkBase = p)
    (hk : (c.tcb t).stksz = k) :
    OnlyIn (area p k.toNat) c.mem (taskMakeDormant t c).mem := by
  subst hp hk
  unfold taskMakeDormant
  simp only [Core.setTcb, Function.update_self]
  split
  · exact fun a ha => if_neg ha
  · exact OnlyIn.refl

/-- **`cre_tsk` fails and changes nothing, or fills the stack.** -/
theorem creTsk_writes : Ensures (creTsk tskid pk s) fun v =>
    (∃ e, e ≠ .ok ∧ v = (s, .er e)) ∨
      v.2 = .er .ok ∧ ∃ t, getTcb tskid = .ok t ∧ NewTask t pk s v.1 := by
  refine .ite (fun _ => .ok (Or.inl ⟨.id, nofun, rfl⟩)) fun _ => .bind' fun t ht => ?_
  refine .ite (fun _ => .ok (Or.inl ⟨.obj, nofun, rfl⟩)) fun hfree => ?_
  refine .ite (fun _ => .ok (Or.inl ⟨.nomem, nofun, rfl⟩)) fun _ => .ok (Or.inr ⟨rfl, t, ht, ?_⟩)
  constructor
  · exact not_not.mp hfree
  · show ((taskMakeDormant t _).tcb t).stk = _
    rw [taskMakeDormant_tcb_self]
    simp only [Kernel.setTcb, Kernel.setCore, Core.setTcb_self]
  · refine taskMakeDormant_onlyIn (c := Core.setTcb t _ s.core) ?_ ?_
    all_goals rw [Core.setTcb_self]

theorem acreTskLoop_writes : ∀ (n : Nat) (i : Int), Ensures (acreTskLoop pk s n i) fun v =>
    (∃ e, v = (s, .er e)) ∨
      ∃ j t, v.2 = .newId j ∧ i ≤ j ∧ j < i + n ∧ getTcb j = .ok t ∧ NewTask t pk s v.1 := by
  intro n
  induction n with
  | zero => exact fun i => .ok (Or.inl ⟨_, rfl⟩)
  | succ n ih =>
    intro i
    refine .bind' fun t ht => .ite (fun _ => .bind' fun v hv => .ok ?_) fun _ => ?_
    · rcases creTsk_writes v hv with ⟨e, he, rfl⟩ | ⟨hr, u, hu, hc⟩
      · exact Or.inl ⟨e, by rw [if_neg (by simpa using he)]⟩
      · exact Or.inr ⟨i, u, if_pos hr, by omega, by omega, hu, hc⟩
    · refine (ih (i + 1)).mono fun v hv => ?_
      rcases hv with hv | ⟨j, u, hr, hlo, hhi, hu, hc⟩
      · exact Or.inl hv
      · exact Or.inr ⟨j, u, hr, by omega, by omega, hu, hc⟩

/-- **`acre_tsk` fails and changes nothing, or fills the stack.** -/
theorem acreTsk_writes : Ensures (acreTsk pk s) fun v =>
    (∃ e, v = (s, .er e)) ∨
      ∃ j t, v.2 = .newId j ∧ (cfg.tmaxTskid : Int) < j ∧ getTcb j = .ok t ∧
        NewTask t pk s v.1 := by
  refine (acreTskLoop_writes _ _).mono fun v hv => ?_
  rcases hv with hv | ⟨j, u, hr, hlo, hhi, hu, hc⟩
  · exact Or.inl hv
  · exact Or.inr ⟨j, u, hr, by omega, hu, hc⟩

/-! ## Activation -/

/-- **`act_tsk` stores the frame the task starts with, or nothing.** -/
theorem actTsk_writes (ht : getTcb tskid = .ok t) : Ensures (actTsk tskid s) fun v =>
    OnlyIn (area (startAddr (s.core.tcb t)) 264) s.core.mem v.1.core.mem := by
  have hid := id_of_entryOf ht
  have hself : getTcbSelf tskid s = .ok t := by
    rw [getTcbSelf, if_neg (by unfold tskSelf; omega), ht]
  have hact : Ensures (_actTsk tskid s) fun v =>
      OnlyIn (area (startAddr (s.core.tcb t)) 264) s.core.mem v.1.core.mem := by
    unfold _actTsk
    rw [hself]
    refine .ite (fun _ => .ok OnlyIn.refl) fun _ => .ite (fun _ => .ok OnlyIn.refl) fun _ => ?_
    refine .ite (fun _ => .ite (fun _ => .ok OnlyIn.refl) fun _ => .ok OnlyIn.refl) fun _ => .ok ?_
    rw [taskMakeReady_core]
    exact fun a ha => (makeTaskContext_words t s.core a).trans (if_neg ha)
  refine .bind' fun v hv => .ok ?_
  have hv := hact v hv
  dsimp only
  split
  · exact hv
  · exact hv

/-! ## Deletion -/

theorem delTsk_mem : Ensures (delTsk tskid s) fun v => v.1.core.mem = s.core.mem := by
  refine .ite (fun _ => .ok rfl) fun _ => .bind' fun t _ => .ite (fun _ => .ok rfl) fun _ => ?_
  refine .ite (fun _ => .ok rfl) fun _ => .ok ?_
  have hcancel : (if (s.core.tcb t).state.waiting then waitCancel t s else s).core = s.core := by
    split <;> rfl
  have hready : ∀ s₁ : Kernel cfg, (if (s₁.core.tcb t).state = .rdy ∨ (s₁.core.tcb t).state = .run
      then taskMakeUnready t s₁ else s₁).core = s₁.core := by
    intro s₁
    split
    · exact taskMakeUnready_core
    · rfl
  have hmem := congrArg Core.mem ((hready _).trans hcancel)
  exact hmem

end Ittrium
