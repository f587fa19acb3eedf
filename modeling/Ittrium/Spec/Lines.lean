import Ittrium.Spec.Calls

/-!
# Lines and control blocks

What the elementary changes of a state do to who stands where, and to which data.

* `Others t a a'` — between the two states only the task `t` is touched
* `Settled.apart`, `Apart.settle` — a task leaves its lines, and gets to new ones
-/

namespace Ittrium

variable {cfg : Config}

/-! ## Control blocks -/

namespace Core

variable {c : Core cfg} {t u : TskIx cfg} {f : TCB cfg → TCB cfg}

@[simp] theorem setTcb_self : (c.setTcb t f).tcb t = f (c.tcb t) := Function.update_self ..

theorem setTcb_of_ne (h : u ≠ t) : (c.setTcb t f).tcb u = c.tcb u := Function.update_of_ne h ..

@[simp] theorem objcb_setTcb (o : ObjId cfg) : (c.setTcb t f).objcb o = c.objcb o := by
  cases o <;> rfl

end Core

/-- The data of the objects and the messages, and the tick's nesting, are the same. -/
structure SameObjects (c c' : Core cfg) : Prop where
  semcb : c'.semcb = c.semcb
  flgcb : c'.flgcb = c.flgcb
  mbxcb : c'.mbxcb = c.mbxcb
  msgque : c'.msgque = c.msgque
  msgpri : c'.msgpri = c.msgpri
  timerNesting : c'.timerNesting = c.timerNesting

namespace SameObjects

variable {c c' c'' : Core cfg}

theorem refl (c : Core cfg) : SameObjects c c := ⟨rfl, rfl, rfl, rfl, rfl, rfl⟩

theorem trans (h : SameObjects c c') (h' : SameObjects c' c'') : SameObjects c c'' where
  semcb := h'.semcb.trans h.semcb
  flgcb := h'.flgcb.trans h.flgcb
  mbxcb := h'.mbxcb.trans h.mbxcb
  msgque := h'.msgque.trans h.msgque
  msgpri := h'.msgpri.trans h.msgpri
  timerNesting := h'.timerNesting.trans h.timerNesting

theorem objcb (h : SameObjects c c') (o : ObjId cfg) : c'.objcb o = c.objcb o := by
  cases o with
  | sem i => simp only [Core.objcb, h.semcb]
  | flg i => simp only [Core.objcb, h.flgcb]
  | mbx i => simp only [Core.objcb, h.mbxcb]

theorem setTcb (t : TskIx cfg) (f : TCB cfg → TCB cfg) (c : Core cfg) :
    SameObjects c (c.setTcb t f) := ⟨rfl, rfl, rfl, rfl, rfl, rfl⟩

theorem makeTaskContext (t : TskIx cfg) (c : Core cfg) :
    SameObjects c (makeTaskContext t c) := ⟨rfl, rfl, rfl, rfl, rfl, rfl⟩

theorem taskMakeDormant (t : TskIx cfg) (c : Core cfg) :
    SameObjects c (taskMakeDormant t c) := by
  unfold Ittrium.taskMakeDormant
  dsimp only
  split <;> exact ⟨rfl, rfl, rfl, rfl, rfl, rfl⟩

end SameObjects

theorem makeTaskContext_tcb_self (t : TskIx cfg) (c : Core cfg) :
    ∃ ctx, (makeTaskContext t c).tcb t = { c.tcb t with tskctxb := ctx } := by
  unfold makeTaskContext
  exact ⟨_, Core.setTcb_self⟩

theorem makeTaskContext_tcb_of_ne {t u : TskIx cfg} (h : u ≠ t) (c : Core cfg) :
    (makeTaskContext t c).tcb u = c.tcb u := by
  unfold makeTaskContext
  exact Core.setTcb_of_ne h

theorem taskMakeDormant_tcb_self (t : TskIx cfg) (c : Core cfg) :
    (taskMakeDormant t c).tcb t =
      { c.tcb t with
        state := .dmt
        tskpri := (c.tcb t).itskpri
        wupcnt := 0
        suscnt := 0
        tskwait := .none } := by
  unfold taskMakeDormant
  dsimp only
  split <;> simp only [Core.setTcb_self]

theorem taskMakeDormant_tcb_of_ne {t u : TskIx cfg} (h : u ≠ t) (c : Core cfg) :
    (taskMakeDormant t c).tcb u = c.tcb u := by
  unfold taskMakeDormant
  dsimp only
  split <;> simp only [Core.setTcb_of_ne h]

namespace Spec

open Infra

variable {a a' a'' : Model cfg} {l l' : Line cfg} {t u : TskIx cfg} {o : ObjId cfg}

/-! ## Lines -/

namespace Model

@[simp] theorem setTcb_tcb_self {f : TCB cfg → TCB cfg} :
    (a.setTcb t f).core.tcb t = f (a.core.tcb t) := Core.setTcb_self

theorem setTcb_tcb_of_ne {f : TCB cfg → TCB cfg} (h : u ≠ t) :
    (a.setTcb t f).core.tcb u = a.core.tcb u := Core.setTcb_of_ne h

theorem setTcb_setTcb (f g : TCB cfg → TCB cfg) :
    (a.setTcb t f).setTcb t g = a.setTcb t fun tcb => g (f tcb) := by
  simp only [setTcb, setCore, Core.setTcb, Function.update_self, Function.update_idem]

@[simp] theorem enq_core : (a.enq l t).core = a.core := rfl
@[simp] theorem enqPri_core : (a.enqPri l t).core = a.core := rfl
@[simp] theorem deq_core : (a.deq l t).core = a.core := rfl
theorem mem_enq : u ∈ (a.enq l t).queue l' ↔ u ∈ a.queue l' ∨ (l' = l ∧ u = t) := by
  by_cases h : l' = l
  · subst h; simp [enq]
  · simp [enq, h]

theorem mem_enqPri : u ∈ (a.enqPri l t).queue l' ↔ u ∈ a.queue l' ∨ (l' = l ∧ u = t) := by
  by_cases h : l' = l
  · subst h; simp [enqPri, mem_insertStable, or_comm]
  · simp [enqPri, h]

theorem mem_deq (hnd : (a.queue l).Nodup) :
    u ∈ (a.deq l t).queue l' ↔ u ∈ a.queue l' ∧ ¬(l' = l ∧ u = t) := by
  by_cases h : l' = l
  · subst h
    simp only [deq, Function.update_self, hnd.mem_erase_iff]
    tauto
  · simp [deq, h]

theorem nodup_enq (hnd : ∀ l, (a.queue l).Nodup) (ht : t ∉ a.queue l) (l' : Line cfg) :
    ((a.enq l t).queue l').Nodup := by
  by_cases h : l' = l
  · subst h
    simp only [enq, Function.update_self, List.nodup_append]
    refine ⟨hnd l', List.nodup_singleton t, fun u hu v hv he => ht ?_⟩
    rwa [← List.mem_singleton.mp hv, ← he]
  · simpa [enq, Function.update_of_ne h] using hnd l'

theorem nodup_enqPri (hnd : ∀ l, (a.queue l).Nodup) (ht : t ∉ a.queue l) (l' : Line cfg) :
    ((a.enqPri l t).queue l').Nodup := by
  by_cases h : l' = l
  · subst h
    simpa [enqPri] using nodup_insertStable ht (hnd l')
  · simpa [enqPri, Function.update_of_ne h] using hnd l'

theorem nodup_deq (hnd : ∀ l, (a.queue l).Nodup) (l' : Line cfg) :
    ((a.deq l t).queue l').Nodup := by
  by_cases h : l' = l
  · subst h; simpa [deq] using (hnd l').erase t
  · simpa [deq, Function.update_of_ne h] using hnd l'

theorem sublist_deq (l' : Line cfg) : ((a.deq l t).queue l').Sublist (a.queue l') := by
  by_cases h : l' = l
  · subst h; simpa [deq] using List.erase_sublist
  · simp [deq, Function.update_of_ne h]

/-- The line of the object `t` waits for, if there is one. -/
theorem deqObj_cases (t : TskIx cfg) (a : Model cfg) :
    ((a.core.tcb t).waitObj = none ∧ a.deqObj t = a) ∨
    ∃ o, (a.core.tcb t).waitObj = some o ∧ a.deqObj t = a.deq (.waitq o) t := by
  unfold deqObj
  cases h : (a.core.tcb t).waitObj with
  | none => exact Or.inl ⟨rfl, rfl⟩
  | some o => exact Or.inr ⟨o, rfl, rfl⟩

end Model

/-! ## Touching one task -/

/-- Between the two states only `t` is touched. -/
structure Others (t : TskIx cfg) (a a' : Model cfg) : Prop where
  tcb : ∀ u, u ≠ t → a'.core.tcb u = a.core.tcb u
  mem : ∀ u, u ≠ t → ∀ l, u ∈ a'.queue l ↔ u ∈ a.queue l
  objects : SameObjects a.core a'.core
  freeSem : a'.freeSem = a.freeSem
  runtsk : a'.runtsk = a.runtsk

namespace Others

theorem refl (t : TskIx cfg) (a : Model cfg) : Others t a a :=
  ⟨fun _ _ => rfl, fun _ _ _ => Iff.rfl, SameObjects.refl _, rfl, rfl⟩

theorem trans (h : Others t a a') (h' : Others t a' a'') : Others t a a'' where
  tcb := fun u hu => (h'.tcb u hu).trans (h.tcb u hu)
  mem := fun u hu l => (h'.mem u hu l).trans (h.mem u hu l)
  objects := h.objects.trans h'.objects
  freeSem := h'.freeSem.trans h.freeSem
  runtsk := h'.runtsk.trans h.runtsk

theorem setCore {f : Core cfg → Core cfg} (ht : ∀ u, u ≠ t → (f a.core).tcb u = a.core.tcb u)
    (ho : SameObjects a.core (f a.core)) : Others t a (a.setCore f) :=
  ⟨ht, fun _ _ _ => Iff.rfl, ho, rfl, rfl⟩

theorem setTcb (t : TskIx cfg) (f : TCB cfg → TCB cfg) (a : Model cfg) :
    Others t a (a.setTcb t f) :=
  setCore (fun _ hu => Core.setTcb_of_ne hu) (.setTcb t f _)

theorem enq (l : Line cfg) (t : TskIx cfg) (a : Model cfg) : Others t a (a.enq l t) :=
  ⟨fun _ _ => rfl, fun u hu l => by simp [Model.mem_enq, hu], .refl _, rfl, rfl⟩

theorem enqPri (l : Line cfg) (t : TskIx cfg) (a : Model cfg) : Others t a (a.enqPri l t) :=
  ⟨fun _ _ => rfl, fun u hu l => by simp [Model.mem_enqPri, hu], .refl _, rfl, rfl⟩

theorem deq (hnd : (a.queue l).Nodup) : Others t a (a.deq l t) :=
  ⟨fun _ _ => rfl, fun u hu l => by simp [Model.mem_deq hnd, hu], .refl _, rfl, rfl⟩

theorem deqObj (hnd : ∀ l, (a.queue l).Nodup) : Others t a (a.deqObj t) := by
  rcases Model.deqObj_cases t a with ⟨-, h⟩ | ⟨o, -, h⟩ <;> rw [h]
  · exact .refl t a
  · exact .deq (hnd _)

theorem makeReady (t : TskIx cfg) (a : Model cfg) : Others t a (a.makeReady t) :=
  (setTcb t _ a).trans (enq _ t _)

theorem makeUnready (hnd : ∀ l, (a.queue l).Nodup) : Others t a (a.makeUnready t) :=
  .deq (hnd _)

theorem cancel (hnd : ∀ l, (a.queue l).Nodup) : Others t a (a.cancel t) :=
  (deq (hnd _)).trans (deqObj (Model.nodup_deq hnd))

theorem leaveWait (t : TskIx cfg) (a : Model cfg) : Others t a (a.leaveWait t) := by
  unfold Model.leaveWait
  dsimp only
  split
  · exact (setTcb t _ a).trans (makeReady t _)
  · exact (setTcb t _ a).trans (setTcb t _ _)

theorem endWait (hnd : ∀ l, (a.queue l).Nodup) : Others t a (a.endWait t) :=
  (cancel hnd).trans (leaveWait t _)

theorem release (e : ER) (hnd : ∀ l, (a.queue l).Nodup) : Others t a (a.release t e) :=
  (setTcb t _ a).trans (endWait hnd)

theorem startTimer (tmout : TMO) (t : TskIx cfg) (a : Model cfg) :
    Others t a (a.startTimer t tmout) := by
  unfold Model.startTimer
  dsimp only
  split
  · exact setTcb t _ a
  · exact (setTcb t _ a).trans ((setTcb t _ _).trans (enq _ t _))

theorem startWait (tmout : TMO) (hnd : ∀ l, (a.queue l).Nodup) :
    Others t a (a.startWait t tmout) :=
  ((makeUnready hnd).trans (setTcb t _ _)).trans (startTimer tmout t _)

/-- The tasks of a line that is not `t`'s are still there. -/
theorem mem_of_ne (h : Others t a a') (hu : u ≠ t) (hm : u ∈ a.queue l) : u ∈ a'.queue l :=
  (h.mem u hu l).mpr hm

end Others

/-! ## Leaving and joining lines -/

theorem LinesInv.others (h : LinesInv a) (ho : Others t a a') (hnd : ∀ l, (a'.queue l).Nodup)
    (hex : ∀ o, t ∈ a'.queue (.waitq o) → (a.core.objcb o).state ≠ .noexs) : LinesInv a' where
  nodup := hnd
  exists_of_waitq := fun o u hu => by
    rw [ho.objects.objcb]
    by_cases he : u = t
    · exact hex o (he ▸ hu)
    · exact h.exists_of_waitq o u ((ho.mem u he _).mp hu)
  mem_freeSem := fun i => by rw [ho.freeSem, ho.objects.semcb]; exact h.mem_freeSem i
  freeSem_nodup := by rw [ho.freeSem]; exact h.freeSem_nodup

/-- What holds of the other tasks goes on to hold. -/
theorem Others.taskInv (ho : Others t a a') (hu : u ≠ t)
    (h : TaskInv u (a.core.tcb u) fun l => u ∈ a.queue l) :
    TaskInv u (a'.core.tcb u) fun l => u ∈ a'.queue l := by
  have hm : (fun l => u ∈ a'.queue l) = fun l => u ∈ a.queue l :=
    funext fun l => propext (ho.mem u hu l)
  rw [ho.tcb u hu, hm]
  exact h

theorem Settled.apart (h : Settled a) (ho : Others t a a') (hnd : ∀ l, (a'.queue l).Nodup)
    (hno : ∀ l, t ∉ a'.queue l) : Apart t a' where
  toLinesInv := h.toLinesInv.others ho hnd fun _ ht => absurd ht (hno _)
  nowhere := hno
  task := fun u hu => ho.taskInv hu (h.task u)

theorem Apart.apart (h : Apart t a) (ho : Others t a a') (hnd : ∀ l, (a'.queue l).Nodup)
    (hno : ∀ l, t ∉ a'.queue l) : Apart t a' where
  toLinesInv := h.toLinesInv.others ho hnd fun _ ht => absurd ht (hno _)
  nowhere := hno
  task := fun u hu => ho.taskInv hu (h.task u hu)

/-- The data of a task that stands in no line may change at will. -/
theorem Apart.setCore {f : Core cfg → Core cfg} (h : Apart t a)
    (hf : ∀ u, u ≠ t → (f a.core).tcb u = a.core.tcb u) (ho : SameObjects a.core (f a.core)) :
    Apart t (a.setCore f) :=
  h.apart (.setCore hf ho) h.nodup h.nowhere

theorem Apart.setTcb (h : Apart t a) (f : TCB cfg → TCB cfg) : Apart t (a.setTcb t f) :=
  h.apart (.setTcb t f a) h.nodup h.nowhere

/-- `t` gets to the lines its `TCB` says. -/
theorem Apart.settle (h : Apart t a) (ho : Others t a a') (hnd : ∀ l, (a'.queue l).Nodup)
    (hex : ∀ o, t ∈ a'.queue (.waitq o) → (a.core.objcb o).state ≠ .noexs)
    (ht : TaskInv t (a'.core.tcb t) fun l => t ∈ a'.queue l) : Settled a' where
  toLinesInv := h.toLinesInv.others ho hnd hex
  task := fun u => by
    by_cases hu : u = t
    · exact hu ▸ ht
    · exact ho.taskInv hu (h.task u hu)

/-- `t` stays where it stands. -/
theorem Settled.settle (h : Settled a) (ho : Others t a a') (hq : a'.queue = a.queue)
    (ht : TaskInv t (a'.core.tcb t) fun l => t ∈ a.queue l) : Settled a' where
  toLinesInv := h.toLinesInv.others ho (hq ▸ h.nodup) fun o hm =>
    h.exists_of_waitq o t (hq ▸ hm)
  task := fun u => by
    by_cases hu : u = t
    · rw [hu, hq]; exact ht
    · exact ho.taskInv hu (h.task u)

end Spec

end Ittrium
