import Ittrium.Refine.Loops
import Ittrium.Spec.Steps

/-!
# Every service call of the kernel does what it does on lists

* `Same x y` — a call of the kernel and one on lists end alike
* `exec_same` — **they do, for every sound call**
-/

namespace Ittrium.Refine

open Infra Spec

variable {cfg : Config} {s : Kernel cfg} {a : Model cfg} {t : TskIx cfg} {r : Ret cfg}

/-- A kernel state and a result against a list state and a result. -/
abbrev SameOutcome (v : Kernel cfg × Ret cfg) (w : Model cfg × Ret cfg) : Prop :=
  Refines v.1 w.1 ∧ v.2 = w.2

/-- Both calls give the same result and states that agree, or fail in the same way. -/
abbrev Same (x : Ittrium.Outcome cfg) (y : Spec.Outcome cfg) : Prop := Agree SameOutcome x y

theorem Refines.ret (h : Refines s a) : Same (.ok (s, r)) (.ok (a, r)) := .ok ⟨h, rfl⟩

/-! ## Arguments and dispatching -/

theorem Refines.dispatch (h : Refines s a) : Refines (dispatch s) a.dispatch where
  core := h.core
  runtsk := h.schedtsk
  schedtsk := h.schedtsk
  onLines := h.onLines
  rdyq := h.rdyq
  rings := h.rings.mono fun r hr => ⟨⟨by
    cases r with
    | waitq o => cases o <;> exact hr.1
    | _ => exact hr.1, id⟩, by cases r <;> rfl⟩
  off := fun _ hf => hf.elim

theorem Refines.runTcb (h : Refines s a) : runTcb s = Spec.runTcb a := by
  unfold Ittrium.runTcb Spec.runTcb
  rw [h.runtsk]
  cases a.runtsk <;> rfl

theorem Refines.runtsk_eq_null (h : Refines s a) : s.runtsk = .null ↔ a.runtsk = none := by
  rw [h.runtsk, ptr_eq_null]

theorem Refines.badTskid (h : Refines s a) (tskid : Int) :
    badTskid tskid s = Spec.badTskid tskid a := by
  unfold Ittrium.badTskid Spec.badTskid
  simp only [h.runtsk_eq_null]

theorem Refines.getTcbSelf (h : Refines s a) (tskid : Int) :
    getTcbSelf tskid s = Spec.getTcbSelf tskid a := by
  unfold Ittrium.getTcbSelf Spec.getTcbSelf
  rw [h.runTcb]

theorem Same.dispatchIfOk {x : Ittrium.Outcome cfg} {y : Spec.Outcome cfg} (h : Same x y) :
    Same (dispatchIfOk x) (Spec.dispatchIfOk y) := by
  refine h.bind fun v w hvw => .ok ⟨?_, hvw.2⟩
  dsimp only
  rw [hvw.2]
  split
  · exact hvw.1.dispatch
  · exact hvw.1

/-- A call that dispatches whatever its result is. -/
theorem Same.dispatchAll {x : Ittrium.Outcome cfg} {y : Spec.Outcome cfg} (h : Same x y) :
    Same (do let (s, r) ← x; .ok (dispatch s, r)) (Spec.dispatchAll y) :=
  h.bind fun _ _ hvw => .ok ⟨hvw.1.dispatch, hvw.2⟩

/-- The ID of the first task of a line. -/
theorem Refines.waitTskid {o : ObjId cfg} (h : Refines s a) (hh : heads a (.waitq o)) :
    waitTskid (.waitq o) s = .ok (Spec.waitTskid o a) := by
  have hempty : kqueueEmpty (.waitq o) s.links = true ↔ _ := h.empty (l := .waitq o) hh
  have hfirst : s.links.next (.waitq o) = _ := h.first (l := .waitq o) hh
  unfold Ittrium.waitTskid Spec.waitTskid
  cases hq : a.queue (.waitq o) with
  | nil => rw [if_pos (hempty.mpr hq)]
  | cons t ts =>
    rw [if_neg (by rw [hempty, hq]; simp), hfirst, hq, h.core]
    rfl

/-! ## Tasks -/

theorem Refines.creTsk {tskid : Int} {pk : TCtsk} (h : Refines s a) (hi : Settled a) :
    Same (creTsk tskid pk s) (Spec.creTsk tskid pk a) := by
  unfold Ittrium.creTsk Spec.creTsk
  refine .ite Iff.rfl (fun _ => h.ret) fun _ => .bindSame fun t _ => ?_
  refine .ite (by rw [h.core]) (fun _ => h.ret) fun hs => ?_
  refine .ite Iff.rfl (fun _ => h.ret) fun _ => .ok ⟨?_, rfl⟩
  rw [h.core] at hs
  exact h.create hi (not_not.mp hs) rfl

theorem Refines.acreTskLoop {pk : TCtsk} (h : Refines s a) (hi : Settled a) :
    ∀ (n : Nat) (i : Int), Same (acreTskLoop pk s n i) (Spec.acreTskLoop pk a n i)
  | 0, _ => h.ret
  | n + 1, i => by
    unfold Ittrium.acreTskLoop Spec.acreTskLoop
    refine .bindSame fun t _ => .ite (by rw [h.core]) (fun _ => ?_)
      fun _ => h.acreTskLoop hi n (i + 1)
    exact (h.creTsk hi).bind fun v w hvw => .ok ⟨hvw.1, by rw [hvw.2]⟩

theorem Refines.delTsk {tskid : Int} (h : Refines s a) (hi : Settled a) :
    Same (delTsk tskid s) (Spec.delTsk tskid a) := by
  unfold Ittrium.delTsk Spec.delTsk
  refine .ite Iff.rfl (fun _ => h.ret) fun _ => .bindSame fun t _ => ?_
  refine .ite (by rw [h.core]) (fun _ => h.ret) fun hs => ?_
  refine .ite (by rw [h.runtsk, ptr_eq_qnode]) (fun _ => h.ret) fun _ => .ok ⟨?_, rfl⟩
  rw [h.core] at hs
  have h₁ := h.detach hi hs rfl rfl
  refine Refines.dispatch (Loose.enqFree (Loose.setTcb h₁ _) ?_)
  rw [Model.setTcb_tcb_self]

theorem Refines._actTsk {tskid : Int} (h : Refines s a) (hi : Settled a) :
    Same (_actTsk tskid s) (Spec._actTsk tskid a) := by
  unfold Ittrium._actTsk Spec._actTsk
  rw [h.badTskid, h.getTcbSelf]
  refine .ite Iff.rfl (fun _ => h.ret) fun _ => .bindSame fun t _ => ?_
  rw [h.core]
  refine .ite Iff.rfl (fun _ => h.ret) fun _ => ?_
  refine .ite Iff.rfl (fun _ => ?_) fun hd => .ok ⟨h.activate hi (not_not.mp hd), rfl⟩
  exact .ite Iff.rfl (fun _ => h.ret) fun _ => .ok ⟨h.setTcb_same rfl rfl, rfl⟩

theorem Refines.chgPri {tskid tskpri : Int} (h : Refines s a) (hi : Inv a)
    (hs : Sound a.core (.chgPri tskid tskpri)) :
    Same (chgPri tskid tskpri s) (Spec.chgPri tskid tskpri a) := by
  unfold Ittrium.chgPri Spec.chgPri
  rw [h.badTskid, h.getTcbSelf]
  refine .ite Iff.rfl (fun _ => h.ret) fun _ => ?_
  refine .ite Iff.rfl (fun _ => h.ret) fun hp => .bindSame fun t ht => ?_
  rw [h.core]
  refine .ite Iff.rfl (fun _ => h.ret) fun hn => ?_
  refine .ite Iff.rfl (fun _ => h.ret) fun hd => .ok ⟨?_, rfl⟩
  have hr : (a.core.tcb t).state = .rdy := by
    rcases getTcbSelf_cases ht with hr | ht
    · exact hi.runtsk t hr
    · exact ((hs t ht).resolve_left hn).resolve_left hd
  refine Refines.dispatch ?_
  split
  · exact h.changePri hi.toSettled hr ((hi.task t).itskpri hn)
  · next hp' =>
    exact h.changePri hi.toSettled hr (linePri_priToIndex (by by_contra; exact hp ⟨by omega, hp'⟩)
      (by by_contra; exact hp ⟨by omega, hp'⟩))

/-- Rotating the line of the task to run; without one there is nothing to rotate. -/
theorem Refines.rotateCurrent (h : Refines s a) :
    Refines (rdyqRotateCurrent s) (a.rotate (.ready (topPri cfg fun p => a.queue (.ready p)))) := by
  unfold rdyqRotateCurrent rdyqTopPri
  rw [h.schedtsk, h.rdyq.top]
  rcases topPri_cases fun p => a.queue (.ready p) with ⟨hq, ht⟩ | ⟨hl, hq, -⟩
  · have htop : a.top = none := by
      unfold Model.top topOf
      rw [if_pos ht]
    have hrot : ∀ p, a.rotate (.ready p) = a := by
      intro p
      have hp : a.queue (.ready p) = [] := by
        by_contra hne
        exact hne (hq p (h.onLines p hne))
      rw [Model.rotate, hp, List.rotate_nil, ← hp, Function.update_eq_self]
    rw [htop, hrot, if_neg (by simp)]
    exact h
  · rw [if_pos]
    · exact h.rotate hl
    · unfold Model.top topOf
      rw [if_neg (by have := hl.2; omega)]
      simpa using hq

theorem Refines.rotRdq {tskpri : Int} (h : Refines s a) :
    Same (rotRdq tskpri s) (Spec.rotRdq tskpri a) := by
  unfold Ittrium.rotRdq Spec.rotRdq
  refine .ite Iff.rfl (fun _ => .ok ⟨?_, rfl⟩) fun _ => ?_
  · exact h.rotateCurrent.dispatch
  · refine .ite Iff.rfl (fun _ => h.ret) fun hp => .ok ⟨?_, rfl⟩
    exact (h.rotate (linePri_priToIndex (by omega) (by omega))).dispatch

theorem Refines.extTsk (h : Refines s a) (hi : Inv a) : Same (extTsk s) (Spec.extTsk a) := by
  unfold Ittrium.extTsk Spec.extTsk
  rw [h.runTcb]
  refine .bindSame fun t ht => .ok ⟨?_, rfl⟩
  exact (h.exit hi.toSettled (hi.ready_of_runTcb ht) rfl).dispatch

/-! ## Sleeping, waking up, suspension -/

theorem setTcb_setTcb (f g : TCB cfg → TCB cfg) (s : Kernel cfg) :
    (s.setTcb t f).setTcb t g = s.setTcb t fun tcb => g (f tcb) := by
  simp [Kernel.setTcb, Kernel.setCore, Core.setTcb]

theorem objcb_setTcb {f : TCB cfg → TCB cfg} (o : ObjId cfg) :
    (a.setTcb t f).core.objcb o = a.core.objcb o := Core.objcb_setTcb o

/-- The running task sets data of its own. -/
theorem settled_setTcb {f : TCB cfg → TCB cfg} (hi : Settled a) (hr : (a.core.tcb t).state = .rdy)
    (hf : (f (a.core.tcb t)).state = (a.core.tcb t).state ∧
      (f (a.core.tcb t)).itskpri = (a.core.tcb t).itskpri ∧
      (f (a.core.tcb t)).tskpri = (a.core.tcb t).tskpri ∧
      (f (a.core.tcb t)).suscnt = (a.core.tcb t).suscnt ∧
      (f (a.core.tcb t)).tskwait = (a.core.tcb t).tskwait ∧
      (f (a.core.tcb t)).waitObj = (a.core.tcb t).waitObj ∧
      (f (a.core.tcb t)).wtmeb = (a.core.tcb t).wtmeb) :
    Settled (a.setTcb t f) ∧ ((a.setTcb t f).core.tcb t).state = .rdy :=
  ⟨(hi.setTcb (.of_ready hr hf)).settled, by rw [Model.setTcb_tcb_self, hf.1, hr]⟩

theorem Refines.dlyTsk {dlytim : RELTIM} (h : Refines s a) (hi : Inv a) :
    Same (dlyTsk dlytim s) (Spec.dlyTsk dlytim a) := by
  unfold Ittrium.dlyTsk Spec.dlyTsk
  rw [h.runTcb]
  refine .bindSame fun t ht => .ok ⟨?_, rfl⟩
  have hr := hi.ready_of_runTcb ht
  have h₁ : Refines (s.setTcb t fun tcb => { tcb with ercd := .ok })
    (a.setTcb t fun tcb => { tcb with ercd := .ok }) := h.setTcb_same rfl rfl
  obtain ⟨hi₁, hr₁⟩ := settled_setTcb (f := fun tcb => { tcb with ercd := .ok }) hi.toSettled hr
    ⟨rfl, rfl, rfl, rfl, rfl, rfl, rfl⟩
  have h₂ := h₁.sleep .dly (dlytim.setWidth 16) hi₁ hr₁
  rw [setTcb_setTcb] at h₂
  exact h₂.dispatch

theorem Refines._slpTsk {tmout : TMO} (h : Refines s a) (hi : Inv a) :
    Same (_slpTsk tmout s) (Spec._slpTsk tmout a) := by
  unfold Ittrium._slpTsk Spec._slpTsk
  rw [h.runTcb]
  refine .bindSame fun t ht => ?_
  have hr := hi.ready_of_runTcb ht
  rw [h.core]
  refine .ite Iff.rfl (fun _ => .ok ⟨Refines.dispatch (h.setTcb_same rfl rfl), rfl⟩) fun _ => ?_
  have h₁ : Refines (s.setTcb t fun tcb => { tcb with ercd := .tmout })
    (a.setTcb t fun tcb => { tcb with ercd := .tmout }) := h.setTcb_same rfl rfl
  obtain ⟨hi₁, hr₁⟩ := settled_setTcb (f := fun tcb => { tcb with ercd := .tmout }) hi.toSettled hr
    ⟨rfl, rfl, rfl, rfl, rfl, rfl, rfl⟩
  exact .ite Iff.rfl (fun _ => .ok ⟨(h₁.sleep _ _ hi₁ hr₁).dispatch, rfl⟩)
    fun _ => .ok ⟨h₁.dispatch, rfl⟩

theorem Refines._wupTsk {tskid : Int} (h : Refines s a) (hi : Settled a) :
    Same (_wupTsk tskid s) (Spec._wupTsk tskid a) := by
  unfold Ittrium._wupTsk Spec._wupTsk
  rw [h.badTskid, h.getTcbSelf]
  refine .ite Iff.rfl (fun _ => h.ret) fun _ => .bindSame fun t _ => ?_
  rw [h.core]
  refine .ite Iff.rfl (fun _ => h.ret) fun _ => ?_
  refine .ite Iff.rfl (fun _ => h.ret) fun _ => ?_
  refine .ite Iff.rfl (fun hw => .ok ⟨h.release hi .ok hw.1, rfl⟩) fun _ => ?_
  exact .ite Iff.rfl (fun _ => h.ret) fun _ => .ok ⟨h.setTcb_same rfl rfl, rfl⟩

theorem Refines.canWup {tskid : Int} (h : Refines s a) :
    Same (canWup tskid s) (Spec.canWup tskid a) := by
  unfold Ittrium.canWup Spec.canWup
  rw [h.badTskid, h.getTcbSelf]
  refine .ite Iff.rfl (fun _ => h.ret) fun _ => .bindSame fun t _ => ?_
  rw [h.core]
  refine .ite Iff.rfl (fun _ => h.ret) fun _ => ?_
  exact .ite Iff.rfl (fun _ => h.ret) fun _ => .ok ⟨h.setTcb_same rfl rfl, rfl⟩

theorem Refines.susTsk {tskid : Int} (h : Refines s a) (hi : Inv a)
    (hs : Sound a.core (.susTsk tskid)) : Same (susTsk tskid s) (Spec.susTsk tskid a) := by
  unfold Ittrium.susTsk Spec.susTsk
  rw [h.badTskid, h.getTcbSelf]
  refine .ite Iff.rfl (fun _ => h.ret) fun _ => .bindSame fun t ht => ?_
  rw [h.core]
  refine .ite Iff.rfl (fun _ => .ok ⟨h.dispatch, rfl⟩) fun h₀ => ?_
  refine .ite Iff.rfl (fun _ => .ok ⟨h.dispatch, rfl⟩) fun h₁ => ?_
  refine .ite Iff.rfl (fun _ => .ok ⟨h.dispatch, rfl⟩) fun h₂ => .ok ⟨?_, rfl⟩
  have hsus : (a.core.tcb t).state ≠ .sus := by
    intro hst
    rcases getTcbSelf_cases ht with hr | ht
    · rw [hi.runtsk t hr] at hst
      cases hst
    · exact h₂ (hs t ht hst).symm
  exact (h.suspend hi.toSettled h₀ h₁ hsus rfl).dispatch

theorem Refines.rsmTsk {tskid : Int} (h : Refines s a) (hi : Settled a) :
    Same (rsmTsk tskid s) (Spec.rsmTsk tskid a) := by
  unfold Ittrium.rsmTsk Spec.rsmTsk
  rw [h.badTskid, h.getTcbSelf]
  refine .ite Iff.rfl (fun _ => h.ret) fun _ => .bindSame fun t _ => ?_
  rw [h.core]
  refine .ite Iff.rfl (fun _ => .ok ⟨h.dispatch, rfl⟩) fun _ => ?_
  refine .ite Iff.rfl (fun _ => .ok ⟨h.dispatch, rfl⟩) fun hs => .ok ⟨?_, rfl⟩
  exact (h.resume hi (by tauto) rfl).dispatch

/-! ## Semaphores -/

theorem Refines._creSem {semid : Int} {pk : TCsem} (h : Refines s a) (hi : Settled a) :
    Same (_creSem semid pk s) (Spec._creSem semid pk a) := by
  unfold Ittrium._creSem Spec._creSem
  refine .ite Iff.rfl (fun _ => h.ret) fun _ => ?_
  refine .ite Iff.rfl (fun _ => h.ret) fun _ => .bindSame fun i _ => ?_
  rw [h.core]
  exact .ite Iff.rfl (fun _ => h.ret) fun hs => .ok ⟨h.takeSem hi (not_not.mp hs), rfl⟩

theorem Refines.acreSemLoop {pk : TCsem} (h : Refines s a) (hi : Settled a) :
    ∀ (n : Nat) (i : Int), Same (acreSemLoop pk s n i) (Spec.acreSemLoop pk a n i)
  | 0, _ => h.ret
  | n + 1, i => by
    unfold Ittrium.acreSemLoop Spec.acreSemLoop
    refine .bindSame fun k _ => .ite (by rw [h.core]) (fun _ => ?_)
      fun _ => h.acreSemLoop hi n (i + 1)
    exact (h._creSem hi).bind fun v w hvw => .ok ⟨hvw.1, by rw [hvw.2]⟩

/-- The end of a call that makes its caller wait for an object. -/
theorem Refines.waits {tmout : TMO} {o : ObjId cfg} (h : Refines s a) (hi : Settled a)
    (hr : (a.core.tcb t).state = .rdy) (ho : (a.core.objcb o).state ≠ .noexs) :
    Same (do let s ← Ittrium.objMakeWait t o tmout s; .ok (Ittrium.dispatch s, .blocked))
      (.ok ((a.objWait t o tmout).dispatch, .blocked)) := by
  obtain ⟨s', hs', h'⟩ := h.objMakeWait tmout hi hr ho
  rw [hs']
  exact .ok ⟨h'.dispatch, rfl⟩

theorem Refines._waiSem {semid : Int} {tmout : TMO} (h : Refines s a) (hi : Inv a) :
    Same (_waiSem semid tmout s) (Spec._waiSem semid tmout a) := by
  unfold Ittrium._waiSem Spec._waiSem
  refine .ite Iff.rfl (fun _ => h.ret) fun _ => .bindSame fun i _ => ?_
  rw [h.core]
  refine .ite Iff.rfl (fun _ => h.ret) fun hs => ?_
  rw [h.runTcb]
  refine .bindSame fun t ht => ?_
  have hr := hi.ready_of_runTcb ht
  refine .ite Iff.rfl (fun _ => .ok ⟨?_, rfl⟩) fun _ => ?_
  · have h₁ : Refines (s.setCore (Core.setSemcb i fun cb => { cb with semcnt := cb.semcnt - 1 }))
        (a.setCore (Core.setSemcb i fun cb => { cb with semcnt := cb.semcnt - 1 })) :=
      h.setCore_same fun _ => ⟨rfl, rfl⟩
    exact Refines.dispatch (h₁.setTcb_same rfl rfl)
  · have h₁ : Refines (s.setTcb t fun tcb => { tcb with ercd := .tmout })
      (a.setTcb t fun tcb => { tcb with ercd := .tmout }) := h.setTcb_same rfl rfl
    obtain ⟨hi₁, hr₁⟩ := settled_setTcb (f := fun tcb => { tcb with ercd := .tmout })
      hi.toSettled hr ⟨rfl, rfl, rfl, rfl, rfl, rfl, rfl⟩
    exact .ite Iff.rfl (fun _ => h₁.waits hi₁ hr₁ (by rw [objcb_setTcb]; exact hs))
      fun _ => .ok ⟨h₁.dispatch, rfl⟩

/-- The first task of an object's line. -/
theorem Refines.firstWaiting {o : ObjId cfg} (h : Refines s a) (hh : heads a (.waitq o)) :
    (!kqueueEmpty (.waitq o) s.links) = decide (a.queue (.waitq o) ≠ []) ∧
    ∀ t ts, a.queue (.waitq o) = t :: ts → tcbOf (s.links.next (.waitq o)) = .ok t := by
  have hempty : kqueueEmpty (.waitq o) s.links = true ↔ _ := h.empty (l := .waitq o) hh
  have hfirst : s.links.next (.waitq o) = _ := h.first (l := .waitq o) hh
  constructor
  · rw [Bool.eq_iff_iff, Bool.not_eq_true', ← Bool.not_eq_true, hempty, decide_eq_true_iff]
  · intro t ts hq
    rw [hfirst, hq]
    rfl

theorem Refines._sigSem {semid : Int} (h : Refines s a) (hi : Settled a) :
    Same (_sigSem semid s) (Spec._sigSem semid a) := by
  unfold Ittrium._sigSem Spec._sigSem
  refine .ite Iff.rfl (fun _ => h.ret) fun _ => .bindSame fun i _ => ?_
  rw [h.core]
  refine .ite Iff.rfl (fun _ => h.ret) fun hs => ?_
  obtain ⟨hempty, hfirst⟩ := h.firstWaiting (heads_waitq (o := .sem i) hi.toLinesInv hs)
  rw [hempty]
  cases hq : a.queue (.waitq (.sem i)) with
  | nil =>
    rw [if_neg (by simp)]
    exact .ite Iff.rfl (fun _ => h.ret) fun _ => .ok ⟨h.setCore_same fun _ => ⟨rfl, rfl⟩, rfl⟩
  | cons t ts =>
    rw [if_pos (by simp), hfirst t ts hq]
    exact .ok ⟨h.release hi .ok (((hi.task t).waitq _).mp (by rw [hq]; simp)).1, rfl⟩

theorem Refines.delSem {semid : Int} (h : Refines s a) (hi : Settled a) :
    Same (delSem semid s) (Spec.delSem semid a) := by
  unfold Ittrium.delSem Spec.delSem
  refine .ite Iff.rfl (fun _ => h.ret) fun _ => .bindSame fun i _ => ?_
  rw [h.core]
  refine .ite Iff.rfl (fun _ => h.ret) fun hs => ?_
  obtain ⟨s', hs', h'⟩ := h.waitDelete (o := .sem i) hi hs
  rw [hs']
  refine .ok ⟨Refines.dispatch (h'.giveSem fun hm => ?_), rfl⟩
  rw [(hi.releaseAll (.sem i)).settled.mem_freeSem, (releaseAll_objects _ a).semcb] at hm
  exact hs hm

theorem Refines.refSem {semid : Int} (h : Refines s a) (hi : Settled a) :
    Same (refSem semid s) (Spec.refSem semid a) := by
  unfold Ittrium.refSem Spec.refSem
  refine .ite Iff.rfl (fun _ => h.ret) fun _ => .bindSame fun i _ => ?_
  rw [h.core]
  refine .ite Iff.rfl (fun _ => h.ret) fun hs => ?_
  rw [h.waitTskid (heads_waitq (o := .sem i) hi.toLinesInv hs)]
  exact .ok ⟨h, rfl⟩

/-! ## Eventflags -/

theorem Refines._creFlg {flgid : Int} {pk : TCflg} (h : Refines s a) (hi : Settled a) :
    Same (_creFlg flgid pk s) (Spec._creFlg flgid pk a) := by
  unfold Ittrium._creFlg Spec._creFlg
  refine .ite Iff.rfl (fun _ => h.ret) fun _ => .bindSame fun i _ => ?_
  rw [h.core]
  refine .ite Iff.rfl (fun _ => h.ret) fun hs => .ok ⟨?_, rfl⟩
  have hq := hi.waitq_eq_nil (o := .flg i) (not_not.mp hs)
  exact (h.reinit (o := .flg i) (fun r => by cases r <;> simp [elems]) hq).setCore_same
    fun _ => ⟨rfl, rfl⟩

theorem Refines.acreFlgLoop {pk : TCflg} (h : Refines s a) (hi : Settled a) :
    ∀ (n : Nat) (i : Int), Same (acreFlgLoop pk s n i) (Spec.acreFlgLoop pk a n i)
  | 0, _ => h.ret
  | n + 1, i => by
    unfold Ittrium.acreFlgLoop Spec.acreFlgLoop
    refine .bindSame fun k _ => .ite (by rw [h.core]) (fun _ => ?_)
      fun _ => h.acreFlgLoop hi n (i + 1)
    exact (h._creFlg hi).bind fun v w hvw => .ok ⟨hvw.1, by rw [hvw.2]⟩

theorem Refines._setFlg {flgid : Int} {setptn : FLGPTN} (h : Refines s a) (hi : Settled a) :
    Same (_setFlg flgid setptn s) (Spec._setFlg flgid setptn a) := by
  unfold Ittrium._setFlg Spec._setFlg
  refine .ite Iff.rfl (fun _ => h.ret) fun _ => .bindSame fun i _ => ?_
  rw [h.core]
  refine .ite Iff.rfl (fun _ => h.ret) fun _ => ?_
  have h₁ : Refines (s.setCore (Core.setFlgcb i fun cb => { cb with flgptn := cb.flgptn ||| setptn }))
      (a.setCore (Core.setFlgcb i fun cb => { cb with flgptn := cb.flgptn ||| setptn })) :=
    h.setCore_same fun _ => ⟨rfl, rfl⟩
  have hi₁ := (hi.setFlgcb (i := i) (f := fun cb => { cb with flgptn := cb.flgptn ||| setptn })
    fun _ => rfl).settled
  obtain ⟨s', hs', h'⟩ := h₁.offerAll (i := i) hi₁
  dsimp only
  rw [hs']
  exact .ok ⟨h', rfl⟩

theorem Refines.clrFlg {flgid : Int} {clrptn : FLGPTN} (h : Refines s a) :
    Same (clrFlg flgid clrptn s) (Spec.clrFlg flgid clrptn a) := by
  unfold Ittrium.clrFlg Spec.clrFlg
  refine .ite Iff.rfl (fun _ => h.ret) fun _ => .bindSame fun i _ => ?_
  rw [h.core]
  exact .ite Iff.rfl (fun _ => h.ret) fun _ => .ok ⟨h.setCore_same fun _ => ⟨rfl, rfl⟩, rfl⟩

theorem Refines._waiFlg {flgid : Int} {waiptn : FLGPTN} {wfmode : MODE} {p : VP} {tmout : TMO}
    (h : Refines s a) (hi : Inv a) : Same (_waiFlg flgid waiptn wfmode p tmout s)
      (Spec._waiFlg flgid waiptn wfmode p tmout a) := by
  unfold Ittrium._waiFlg Spec._waiFlg
  refine .ite Iff.rfl (fun _ => h.ret) fun _ => ?_
  refine .ite Iff.rfl (fun _ => h.ret) fun _ => .bindSame fun i _ => ?_
  rw [h.core, h.runTcb]
  refine .bindSame fun t ht => ?_
  have hr := hi.ready_of_runTcb ht
  have hempty : kqueueEmpty (.waitq (.flg i)) s.links = true ↔ _ :=
    h.empty (l := .waitq (.flg i)) trivial
  refine .ite Iff.rfl (fun _ => .ok ⟨h.setTcb_same rfl rfl, rfl⟩) fun hs => ?_
  refine .ite (by rw [Bool.not_eq_true', ← Bool.not_eq_true, hempty])
    (fun _ => .ok ⟨h.setTcb_same rfl rfl, rfl⟩) fun _ => ?_
  refine .ite Iff.rfl (fun _ => .ok ⟨?_, rfl⟩) fun _ => ?_
  · have h₁ : Refines (s.setTcb t fun tcb => { tcb with ercd := .ok })
      (a.setTcb t fun tcb => { tcb with ercd := .ok }) := h.setTcb_same rfl rfl
    exact (h₁.setCore_same fun _ => ⟨rfl, rfl⟩).setCore_same fun _ => ⟨rfl, rfl⟩
  · have h₁ : Refines (s.setTcb t fun tcb => { tcb with ercd := .tmout })
      (a.setTcb t fun tcb => { tcb with ercd := .tmout }) := h.setTcb_same rfl rfl
    have h₂ := h₁.setTcb_same (t := t)
      (f := fun tcb => { tcb with waitinfo := .flg waiptn wfmode p }) rfl rfl
    obtain ⟨hi₁, hr₁⟩ := settled_setTcb (f := fun tcb => { tcb with ercd := .tmout })
      hi.toSettled hr ⟨rfl, rfl, rfl, rfl, rfl, rfl, rfl⟩
    obtain ⟨hi₂, hr₂⟩ := settled_setTcb
      (f := fun tcb => { tcb with waitinfo := .flg waiptn wfmode p })
      hi₁ hr₁ ⟨rfl, rfl, rfl, rfl, rfl, rfl, rfl⟩
    exact .ite Iff.rfl (fun _ => Refines.waits h₂ hi₂ hr₂ (by rw [objcb_setTcb, objcb_setTcb]; exact hs))
      fun _ => .ok ⟨h₁, rfl⟩

theorem Refines.refFlg {flgid : Int} (h : Refines s a) :
    Same (refFlg flgid s) (Spec.refFlg flgid a) := by
  unfold Ittrium.refFlg Spec.refFlg
  refine .ite Iff.rfl (fun _ => h.ret) fun _ => .bindSame fun i _ => ?_
  rw [h.core]
  refine .ite Iff.rfl (fun _ => h.ret) fun _ => ?_
  rw [h.waitTskid (o := .flg i) trivial]
  exact .ok ⟨h, rfl⟩

theorem Refines.delFlg {flgid : Int} (h : Refines s a) (hi : Settled a) :
    Same (delFlg flgid s) (Spec.delFlg flgid a) := by
  unfold Ittrium.delFlg Spec.delFlg
  refine .ite Iff.rfl (fun _ => h.ret) fun _ => .bindSame fun i _ => ?_
  rw [h.core]
  refine .ite Iff.rfl (fun _ => h.ret) fun hs => ?_
  obtain ⟨s', hs', h'⟩ := h.waitDelete (o := .flg i) hi hs
  rw [hs']
  exact .ok ⟨Refines.dispatch (h'.setCore_same fun _ => ⟨rfl, rfl⟩), rfl⟩

/-! ## Mailboxes -/

theorem Refines._creMbx {mbxid : Int} {pk : TCmbx} (h : Refines s a) (hi : Settled a) :
    Same (_creMbx mbxid pk s) (Spec._creMbx mbxid pk a) := by
  unfold Ittrium._creMbx Spec._creMbx
  refine .ite Iff.rfl (fun _ => h.ret) fun _ => .bindSame fun i _ => ?_
  rw [h.core]
  refine .ite Iff.rfl (fun _ => h.ret) fun hs => .ok ⟨?_, rfl⟩
  have hq := hi.waitq_eq_nil (o := .mbx i) (not_not.mp hs)
  exact ((h.reinit (o := .mbx i) (fun r => by cases r <;> simp [elems]) hq).setCore_same
    fun _ => ⟨rfl, rfl⟩).setCore_same fun _ => ⟨rfl, rfl⟩

theorem Refines.acreMbxLoop {pk : TCmbx} (h : Refines s a) (hi : Settled a) :
    ∀ (n : Nat) (i : Int), Same (acreMbxLoop pk s n i) (Spec.acreMbxLoop pk a n i)
  | 0, _ => h.ret
  | n + 1, i => by
    unfold Ittrium.acreMbxLoop Spec.acreMbxLoop
    refine .bindSame fun k _ => .ite (by rw [h.core]) (fun _ => ?_)
      fun _ => h.acreMbxLoop hi n (i + 1)
    exact (h._creMbx hi).bind fun v w hvw => .ok ⟨hvw.1, by rw [hvw.2]⟩

theorem Refines._sndMbx {mbxid : Int} {m : Fin cfg.nmsg} (h : Refines s a) (hi : Settled a) :
    Same (_sndMbx mbxid m s) (Spec._sndMbx mbxid m a) := by
  unfold Ittrium._sndMbx Spec._sndMbx
  refine .ite Iff.rfl (fun _ => h.ret) fun _ => .bindSame fun i _ => ?_
  rw [h.core]
  refine .ite Iff.rfl (fun _ => h.ret) fun _ => ?_
  refine .ite Iff.rfl (fun _ => h.ret) fun _ => ?_
  obtain ⟨hempty, hfirst⟩ := h.firstWaiting (o := .mbx i) trivial
  rw [hempty]
  cases hq : a.queue (.waitq (.mbx i)) with
  | nil =>
    rw [if_neg (by simp)]
    refine .bindSame fun c hc => .ok ⟨?_, rfl⟩
    have hsame := enqueueMsg_same m i a.core c hc
    have h₁ := h.setCore_same (f := fun _ => c) fun u => by rw [hsame.tcb]; exact ⟨rfl, rfl⟩
    exact h₁
  | cons t ts =>
    rw [if_pos (by simp), hfirst t ts hq]
    have hw := (((hi.task t).waitq _).mp (by rw [hq]; simp : t ∈ a.queue (.waitq (.mbx i)))).1
    have h₁ : Refines (s.setCore fun c =>
        { c with msgvar := Function.update c.msgvar (c.tcb t).waitinfo.ppkMsg (.pkt m) })
        (a.setCore fun c =>
        { c with msgvar := Function.update c.msgvar (c.tcb t).waitinfo.ppkMsg (.pkt m) }) :=
      h.setCore_same fun _ => ⟨rfl, rfl⟩
    have hi₁ := (hi.setRest (f := fun c =>
      { c with msgvar := Function.update c.msgvar (c.tcb t).waitinfo.ppkMsg (.pkt m) })
      rfl rfl rfl rfl rfl).settled
    exact .ok ⟨h₁.release hi₁ .ok hw, rfl⟩

theorem Refines._rcvMbx {mbxid : Int} {p : VP} {tmout : TMO} (h : Refines s a) (hi : Inv a) :
    Same (_rcvMbx mbxid p tmout s) (Spec._rcvMbx mbxid p tmout a) := by
  unfold Ittrium._rcvMbx Spec._rcvMbx
  refine .ite Iff.rfl (fun _ => h.ret) fun _ => ?_
  refine .ite Iff.rfl (fun _ => h.ret) fun _ => .bindSame fun i _ => ?_
  rw [h.core, h.runTcb]
  refine .bindSame fun t ht => ?_
  have hr := hi.ready_of_runTcb ht
  refine .ite Iff.rfl (fun _ => .ok ⟨h.setTcb_same rfl rfl, rfl⟩) fun hs => ?_
  refine .ite Iff.rfl (fun _ => .ok ⟨?_, rfl⟩) fun _ => ?_
  · have h₁ : Refines (s.setTcb t fun tcb => { tcb with ercd := .ok })
      (a.setTcb t fun tcb => { tcb with ercd := .ok }) := h.setTcb_same rfl rfl
    exact h₁.setCore_same fun _ => ⟨rfl, rfl⟩
  · have h₁ : Refines (s.setTcb t fun tcb => { tcb with ercd := .tmout })
      (a.setTcb t fun tcb => { tcb with ercd := .tmout }) := h.setTcb_same rfl rfl
    have h₂ := h₁.setTcb_same (t := t) (f := fun tcb => { tcb with waitinfo := .mbx p }) rfl rfl
    obtain ⟨hi₁, hr₁⟩ := settled_setTcb (f := fun tcb => { tcb with ercd := .tmout })
      hi.toSettled hr ⟨rfl, rfl, rfl, rfl, rfl, rfl, rfl⟩
    obtain ⟨hi₂, hr₂⟩ := settled_setTcb (f := fun tcb => { tcb with waitinfo := .mbx p })
      hi₁ hr₁ ⟨rfl, rfl, rfl, rfl, rfl, rfl, rfl⟩
    exact .ite Iff.rfl (fun _ => Refines.waits h₂ hi₂ hr₂ (by rw [objcb_setTcb, objcb_setTcb]; exact hs))
      fun _ => .ok ⟨h₁, rfl⟩

theorem Refines.refMbx {mbxid : Int} (h : Refines s a) :
    Same (refMbx mbxid s) (Spec.refMbx mbxid a) := by
  unfold Ittrium.refMbx Spec.refMbx
  refine .ite Iff.rfl (fun _ => h.ret) fun _ => .bindSame fun i _ => ?_
  rw [h.core]
  refine .ite Iff.rfl (fun _ => h.ret) fun _ => ?_
  rw [h.waitTskid (o := .mbx i) trivial]
  exact .ok ⟨h, rfl⟩

theorem Refines.delMbx {mbxid : Int} (h : Refines s a) (hi : Settled a) :
    Same (delMbx mbxid s) (Spec.delMbx mbxid a) := by
  unfold Ittrium.delMbx Spec.delMbx
  refine .ite Iff.rfl (fun _ => h.ret) fun _ => .bindSame fun i _ => ?_
  rw [h.core]
  refine .ite Iff.rfl (fun _ => h.ret) fun hs => ?_
  obtain ⟨s', hs', h'⟩ := h.waitDelete (o := .mbx i) hi hs
  rw [hs']
  exact .ok ⟨Refines.dispatch ((h'.setCore_same fun _ => ⟨rfl, rfl⟩).setCore_same
    fun _ => ⟨rfl, rfl⟩), rfl⟩

/-! ## The tick -/

theorem account_none (hr : a.runtsk = none) :
    a.account = (a.setCore fun c => { c with telemetryWallTicks := c.telemetryWallTicks + 1 }).setCore
      fun c => { c with telemetryIdleTicks := c.telemetryIdleTicks + 1 } := by
  simp only [Model.account, show ∀ f, (a.setCore f).runtsk = _ from fun _ => hr]

theorem account_some (hr : a.runtsk = some t) :
    a.account = (a.setCore fun c => { c with telemetryWallTicks := c.telemetryWallTicks + 1 }).setTcb t
      fun tcb => { tcb with runTicks := tcb.runTicks + 1 } := by
  simp only [Model.account, show ∀ f, (a.setCore f).runtsk = _ from fun _ => hr]

/-- The tick is accounted to the running task, or to nobody. -/
theorem Refines.account {s₁ : Kernel cfg} (h : Refines s a)
    (hs₁ : s₁ = s.setCore fun c => { c with telemetryWallTicks := c.telemetryWallTicks + 1 }) :
    (s₁.runtsk = .null ∧ Refines
      (s₁.setCore fun c => { c with telemetryIdleTicks := c.telemetryIdleTicks + 1 }) a.account) ∨
    ∃ t, s₁.runtsk = .qnode t ∧
      Refines (s₁.setTcb t fun tcb => { tcb with runTicks := tcb.runTicks + 1 }) a.account := by
  have h₁ : Refines s₁
      (a.setCore fun c => { c with telemetryWallTicks := c.telemetryWallTicks + 1 }) :=
    hs₁ ▸ h.setCore_same fun _ => ⟨rfl, rfl⟩
  have hrun : s₁.runtsk = ptr a.runtsk := h₁.runtsk
  cases hr : a.runtsk with
  | none =>
    rw [account_none hr]
    exact Or.inl ⟨by rw [hrun, hr]; rfl, h₁.setCore_same fun _ => ⟨rfl, rfl⟩⟩
  | some t =>
    rw [account_some hr]
    exact Or.inr ⟨t, by rw [hrun, hr]; rfl, h₁.setTcb_same rfl rfl⟩

theorem bind_of_ok {α β : Type} {x : Exec α} {f : α → Exec β} {v : α} (h : x = .ok v) :
    x >>= f = f v := by
  rw [h]
  rfl

/-- **`timer_handler` outside of itself.** -/
theorem Refines.timerHandler (h : Refines s a) (hi : Settled a) (hn : a.core.timerNesting = 0) :
    ∃ s', timerHandler s = .ok s' ∧ Refines s' (Spec.timerHandler a) := by
  have h₀ : Refines (s.setCore fun c => (timerHwEnter c).2) (a.setCore fun c => (timerHwEnter c).2) :=
    h.setCore_same fun _ => ⟨rfl, rfl⟩
  have hi₀ : Settled (a.setCore fun c => (timerHwEnter c).2) := hi.setTicks rfl rfl
  have hexit : ∀ c : Core cfg, (timerHwExit c).tcb = c.tcb := timerHwExit_tcb
  have hnest : (timerHwEnter s.core).1 = 0 := by rw [h.core]; exact hn
  have hend : ∀ s₂ a₂, Refines s₂ a₂ → Refines (s₂.setCore timerHwExit) (a₂.setCore timerHwExit) :=
    fun _ _ h₂ => h₂.setCore_same fun u => by rw [hexit]; exact ⟨rfl, rfl⟩
  unfold Ittrium.timerHandler
  dsimp only
  rw [hnest, if_neg (by simp)]
  rcases h₀.account rfl with ⟨hr, h₁⟩ | ⟨t, hr, h₁⟩ <;>
    obtain ⟨s₂, hs₂, h₂⟩ := h₁.tick hi₀.account.settled <;>
    refine ⟨s₂.setCore timerHwExit, ?_, hend _ _ h₂⟩
  · rw [if_neg (fun hne => hne hr)]
    exact bind_of_ok (f := fun s => .ok (s.setCore timerHwExit)) hs₂
  · rw [if_pos fun he => by cases hr.symm.trans he]
    refine (bind_of_ok (congrArg tcbOf hr)).trans ((bind_of_ok rfl).trans ?_)
    exact bind_of_ok (f := fun s => .ok (s.setCore timerHwExit)) hs₂

/-! ## All steps -/

/-- **What the kernel does and what it does on lists.** -/
theorem exec_same {c : Call cfg} (h : Refines s a) (hi : Inv a) (hs : Sound a.core c) :
    Same (exec c s) (Spec.exec c a) := by
  have hst := hi.toSettled
  cases c with
  | creTsk tskid pk => exact h.creTsk hst
  | acreTsk pk => exact h.acreTskLoop hst _ _
  | delTsk tskid => exact h.delTsk hst
  | actTsk tskid => exact (h._actTsk hst).dispatchIfOk
  | iactTsk tskid => exact h._actTsk hst
  | chgPri tskid tskpri => exact h.chgPri hi hs
  | rotRdq tskpri => exact h.rotRdq
  | extTsk => exact h.extTsk hi
  | dlyTsk dlytim => exact h.dlyTsk hi
  | susTsk tskid => exact h.susTsk hi hs
  | rsmTsk tskid => exact h.rsmTsk hst
  | slpTsk => exact h._slpTsk hi
  | tslpTsk tmout => exact h._slpTsk hi
  | wupTsk tskid => exact (h._wupTsk hst).dispatchIfOk
  | iwupTsk tskid => exact h._wupTsk hst
  | canWup tskid => exact h.canWup
  | creSem semid pk => exact .ite Iff.rfl (fun _ => h.ret) fun _ => h._creSem hst
  | acreSem pk => exact h.acreSemLoop hst _ _
  | waiSem semid => exact h._waiSem hi
  | twaiSem semid tmout => exact h._waiSem hi
  | polSem semid => exact h._waiSem hi
  | sigSem semid => exact (h._sigSem hst).dispatchAll
  | isigSem semid => exact h._sigSem hst
  | delSem semid => exact h.delSem hst
  | refSem semid => exact h.refSem hst
  | creFlg flgid pk => exact .ite Iff.rfl (fun _ => h.ret) fun _ => h._creFlg hst
  | acreFlg pk => exact h.acreFlgLoop hst _ _
  | setFlg flgid setptn => exact (h._setFlg hst).dispatchAll
  | isetFlg flgid setptn => exact h._setFlg hst
  | clrFlg flgid clrptn => exact h.clrFlg
  | waiFlg flgid waiptn wfmode p => exact h._waiFlg hi
  | twaiFlg flgid waiptn wfmode p tmout => exact h._waiFlg hi
  | polFlg flgid waiptn wfmode p => exact h._waiFlg hi
  | refFlg flgid => exact h.refFlg
  | delFlg flgid => exact h.delFlg hst
  | creMbx mbxid pk => exact .ite Iff.rfl (fun _ => h.ret) fun _ => h._creMbx hst
  | acreMbx pk => exact h.acreMbxLoop hst _ _
  | sndMbx mbxid m => exact (h._sndMbx hst).dispatchAll
  | rcvMbx mbxid p => exact h._rcvMbx hi
  | trcvMbx mbxid p tmout => exact h._rcvMbx hi
  | prcvMbx mbxid p => exact h._rcvMbx hi
  | refMbx mbxid => exact h.refMbx
  | delMbx mbxid => exact h.delMbx hst
  | timerHandler =>
    obtain ⟨s', hs', h'⟩ := h.timerHandler hst hi.timerNesting
    show Same (Ittrium.timerHandler s >>= _) _
    rw [hs']
    exact .ok ⟨h', rfl⟩
  | dispatch => exact .ok ⟨h.dispatch, rfl⟩
  | setMsgpri m pri =>
    have h₁ := h.setCore_same (f := fun c =>
      { c with msgpri := Function.update c.msgpri m pri }) fun _ => ⟨rfl, rfl⟩
    exact .ok ⟨h₁, rfl⟩

end Ittrium.Refine
