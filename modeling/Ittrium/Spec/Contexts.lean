import Ittrium.Kernel.Switching
import Ittrium.Spec.Stacks

/-!
# The contexts of the tasks

Only creation, activation and `ext_tsk` write to the stacks or to a `tskctxb`.

* `Model.contexts` — the stacks' bytes and the saved stack pointers
* `exec_contexts` — **no other step touches them**
* `exec_inHandler` — the calls of a handler leave the running task the running one
-/

namespace Ittrium.Spec

open Infra

variable {cfg : Config} {a a' b : Model cfg} {t u : TskIx cfg} {o : ObjId cfg} {c : Call cfg}
  {r : Ret cfg} {tmout : TMO} {l : Line cfg}

/-- The bytes of the stacks, and the saved contexts of the control blocks. -/
def Model.contexts (a : Model cfg) : (VP → UInt8) × (TskIx cfg → CTXB) :=
  (a.core.mem, fun t => (a.core.tcb t).tskctxb)

namespace Model

theorem contexts_of_core (h : b.core = a.core) : b.contexts = a.contexts := by
  rw [contexts, contexts, h]

/-! ## State changes -/

@[simp] theorem contexts_enq : (a.enq l t).contexts = a.contexts := rfl
@[simp] theorem contexts_enqPri : (a.enqPri l t).contexts = a.contexts := rfl
@[simp] theorem contexts_deq : (a.deq l t).contexts = a.contexts := rfl
@[simp] theorem contexts_rotate : (a.rotate l).contexts = a.contexts := rfl
@[simp] theorem contexts_dispatch : a.dispatch.contexts = a.contexts := rfl
@[simp] theorem contexts_makeUnready : (a.makeUnready t).contexts = a.contexts := rfl

@[simp] theorem contexts_cancel : (a.cancel t).contexts = a.contexts :=
  contexts_of_core (cancel_core ..)

/-- Data is written that is no context. -/
@[simp] theorem contexts_setTcb {f : TCB cfg → TCB cfg}
    (hf : ∀ tcb, (f tcb).tskctxb = tcb.tskctxb) : (a.setTcb t f).contexts = a.contexts := by
  refine Prod.ext rfl (funext fun u => ?_)
  by_cases hu : u = t
  · rw [hu]
    exact (congrArg TCB.tskctxb setTcb_tcb_self).trans (hf _)
  · exact congrArg TCB.tskctxb (setTcb_tcb_of_ne hu)

theorem contexts_setCore {f : Core cfg → Core cfg} (hm : (f a.core).mem = a.core.mem)
    (ht : (f a.core).tcb = a.core.tcb) : (a.setCore f).contexts = a.contexts := by
  show ((f a.core).mem, fun t => ((f a.core).tcb t).tskctxb) = a.contexts
  rw [hm, ht]
  rfl

@[simp] theorem contexts_makeReady : (a.makeReady t).contexts = a.contexts := by
  simp [makeReady]

@[simp] theorem contexts_leaveWait : (a.leaveWait t).contexts = a.contexts := by
  unfold leaveWait
  dsimp only
  split <;> simp

@[simp] theorem contexts_endWait : (a.endWait t).contexts = a.contexts := by
  simp [endWait]

@[simp] theorem contexts_release {e : ER} : (a.release t e).contexts = a.contexts := by
  simp [release]

@[simp] theorem contexts_startTimer : (a.startTimer t tmout).contexts = a.contexts := by
  unfold startTimer
  dsimp only
  split <;> simp

@[simp] theorem contexts_startWait : (a.startWait t tmout).contexts = a.contexts := by
  simp [startWait]

@[simp] theorem contexts_objWait : (a.objWait t o tmout).contexts = a.contexts := by
  unfold objWait
  dsimp only
  split <;> simp

@[simp] theorem contexts_sleep {why : TskWait} : (a.sleep t why tmout).contexts = a.contexts := by
  simp [sleep]

@[simp] theorem contexts_changePri {p : Int} : (a.changePri t p).contexts = a.contexts := by
  simp [changePri]

@[simp] theorem contexts_suspend : (a.suspend t).contexts = a.contexts := by
  unfold suspend
  dsimp only
  split
  · simp
  · split <;> simp

@[simp] theorem contexts_resume : (a.resume t).contexts = a.contexts := by
  unfold resume
  dsimp only
  split
  · split <;> simp
  · simp

@[simp] theorem contexts_delete : (a.delete t).contexts = a.contexts := by
  unfold delete
  dsimp only
  split
  · simp
  · split <;> simp

/-- A loop no round of which touches a context. -/
theorem contexts_foldl {op : Model cfg → TskIx cfg → Model cfg}
    (hop : ∀ a t, (op a t).contexts = a.contexts) :
    ∀ (ts : List (TskIx cfg)) (a : Model cfg), (ts.foldl op a).contexts = a.contexts
  | [], _ => rfl
  | t :: ts, a => (contexts_foldl hop ts (op a t)).trans (hop a t)

@[simp] theorem contexts_releaseAll : (a.releaseAll o).contexts = a.contexts :=
  contexts_foldl (fun _ _ => contexts_release) _ _

theorem contexts_offer (i : FlgIx cfg) (t : TskIx cfg) (a : Model cfg) :
    (a.offer i t).contexts = a.contexts := by
  unfold offer
  dsimp only
  split
  · rw [contexts_setCore rfl rfl, contexts_release, contexts_setCore rfl rfl]
  · rfl

@[simp] theorem contexts_handOver {m : Fin cfg.nmsg} : (a.handOver m t).contexts = a.contexts := by
  rw [handOver, contexts_release, contexts_setCore rfl rfl]

@[simp] theorem contexts_account : a.account.contexts = a.contexts := by
  unfold account
  dsimp only
  split
  · exact (contexts_setTcb (by simp)).trans rfl
  · rfl

@[simp] theorem contexts_tick : a.tick.contexts = a.contexts := by
  refine contexts_foldl (fun a t => ?_) _ _
  unfold tickOne
  dsimp only
  split <;> simp

end Model

theorem enqueueMsg_contexts (m : Fin cfg.nmsg) (i : MbxIx cfg) :
    Ensures (enqueueMsg m i a.core) fun c => (Model.contexts { a with core := c }) = a.contexts := by
  unfold enqueueMsg
  refine .ite (fun _ => .bind' fun v _ => .ok rfl) fun _ => .ok ?_
  unfold appendMsg
  dsimp only
  split <;> rfl

/-! ## Calls -/

/-- If the call returns, it has touched no context. -/
abbrev Spares (a : Model cfg) (x : Outcome cfg) : Prop :=
  Ensures x fun v => v.1.contexts = a.contexts

theorem spares_self : Spares a (.ok (a, r)) := .ok rfl

theorem Spares.dispatchIfOk {x : Outcome cfg} (h : Spares a x) : Spares a (Spec.dispatchIfOk x) := by
  refine Ensures.bind (h.mono fun v hv => .ok ?_)
  dsimp only
  split
  · exact hv
  · exact hv

theorem Spares.dispatchAll {x : Outcome cfg} (h : Spares a x) : Spares a (Spec.dispatchAll x) :=
  Ensures.bind (h.mono fun _ hv => .ok hv)

/-- The ID found is returned instead of `E_OK`. -/
theorem Spares.newId {x : Outcome cfg} {i : Int} (h : Spares a x) :
    Spares a (do let (a, r) ← x; .ok (a, if r = .er .ok then .newId i else r)) :=
  Ensures.bind (h.mono fun _ hv => .ok hv)

theorem spares_delTsk {tskid : Int} : Spares a (Spec.delTsk tskid a) := by
  unfold Spec.delTsk
  refine .ite (fun _ => spares_self) fun _ => .bind' fun t _ => .ite (fun _ => spares_self) fun _ => ?_
  exact .ite (fun _ => spares_self) fun _ => .ok (by simp)

theorem spares_chgPri {tskid tskpri : Int} : Spares a (Spec.chgPri tskid tskpri a) := by
  unfold Spec.chgPri
  refine .ite (fun _ => spares_self) fun _ => .ite (fun _ => spares_self) fun _ => .bind' fun t _ => ?_
  refine .ite (fun _ => spares_self) fun _ => .ite (fun _ => spares_self) fun _ => .ok ?_
  simp

theorem spares_rotRdq {tskpri : Int} : Spares a (rotRdq tskpri a) := by
  unfold Spec.rotRdq
  refine .ite (fun _ => .ok rfl) fun _ => .ite (fun _ => spares_self) fun _ => .ok rfl

theorem spares_susTsk {tskid : Int} : Spares a (Spec.susTsk tskid a) := by
  unfold Spec.susTsk
  refine .ite (fun _ => spares_self) fun _ => .bind' fun t _ => .ite (fun _ => .ok rfl) fun _ => ?_
  refine .ite (fun _ => .ok rfl) fun _ => .ite (fun _ => .ok rfl) fun _ => .ok ?_
  simp

theorem spares_rsmTsk {tskid : Int} : Spares a (Spec.rsmTsk tskid a) := by
  unfold Spec.rsmTsk
  refine .ite (fun _ => spares_self) fun _ => .bind' fun t _ => .ite (fun _ => .ok rfl) fun _ => ?_
  exact .ite (fun _ => .ok rfl) fun _ => .ok (by simp)

theorem spares_slpTsk : Spares a (_slpTsk tmout a) := by
  unfold Spec._slpTsk
  refine .bind' fun t _ => .ite (fun _ => .ok (by simp)) fun _ => .ite (fun _ => .ok ?_) fun _ => ?_
  · simp
  · exact .ok (by simp)

theorem spares_wupTsk {tskid : Int} : Spares a (Spec._wupTsk tskid a) := by
  unfold Spec._wupTsk
  refine .ite (fun _ => spares_self) fun _ => .bind' fun t _ => .ite (fun _ => spares_self) fun _ => ?_
  refine .ite (fun _ => spares_self) fun _ => .ite (fun _ => .ok (by simp)) fun _ => ?_
  exact .ite (fun _ => spares_self) fun _ => .ok (by simp)

theorem spares_canWup {tskid : Int} : Spares a (canWup tskid a) := by
  unfold Spec.canWup
  refine .ite (fun _ => spares_self) fun _ => .bind' fun t _ => .ite (fun _ => spares_self) fun _ => ?_
  exact .ite (fun _ => spares_self) fun _ => .ok (by simp)

theorem spares_creSem {semid : Int} {pk : TCsem} : Spares a (_creSem semid pk a) := by
  unfold Spec._creSem
  refine .ite (fun _ => spares_self) fun _ => .ite (fun _ => spares_self) fun _ => .bind' fun i _ => ?_
  exact .ite (fun _ => spares_self) fun _ => .ok rfl

theorem spares_acreSemLoop {pk : TCsem} : ∀ (n : Nat) (i : Int), Spares a (acreSemLoop pk a n i)
  | 0, _ => spares_self
  | n + 1, i => by
    unfold Spec.acreSemLoop
    exact .bind' fun k _ => .ite (fun _ => spares_creSem.newId) fun _ => spares_acreSemLoop n (i + 1)

theorem spares_waiSem {semid : Int} : Spares a (_waiSem semid tmout a) := by
  unfold Spec._waiSem
  refine .ite (fun _ => spares_self) fun _ => .bind' fun i _ => .ite (fun _ => spares_self) fun _ => ?_
  refine .bind' fun t _ => .ite (fun _ => .ok ?_) fun _ => .ite (fun _ => .ok ?_) fun _ => .ok ?_
  · exact (Model.contexts_setTcb (by simp)).trans rfl
  · simp
  · simp

theorem spares_sigSem {semid : Int} : Spares a (Spec._sigSem semid a) := by
  unfold Spec._sigSem
  refine .ite (fun _ => spares_self) fun _ => .bind' fun i _ => .ite (fun _ => spares_self) fun _ => ?_
  split
  · exact .ok (by simp)
  · exact .ite (fun _ => spares_self) fun _ => .ok rfl

theorem spares_delSem {semid : Int} : Spares a (Spec.delSem semid a) := by
  unfold Spec.delSem
  refine .ite (fun _ => spares_self) fun _ => .bind' fun i _ => .ite (fun _ => spares_self) fun _ => ?_
  exact .ok (Model.contexts_releaseAll (o := .sem i))

theorem spares_creFlg {flgid : Int} {pk : TCflg} : Spares a (_creFlg flgid pk a) := by
  unfold Spec._creFlg
  refine .ite (fun _ => spares_self) fun _ => .bind' fun i _ => ?_
  exact .ite (fun _ => spares_self) fun _ => .ok rfl

theorem spares_acreFlgLoop {pk : TCflg} : ∀ (n : Nat) (i : Int), Spares a (acreFlgLoop pk a n i)
  | 0, _ => spares_self
  | n + 1, i => by
    unfold Spec.acreFlgLoop
    exact .bind' fun k _ => .ite (fun _ => spares_creFlg.newId) fun _ => spares_acreFlgLoop n (i + 1)

theorem spares_setFlg {flgid : Int} {setptn : FLGPTN} : Spares a (Spec._setFlg flgid setptn a) := by
  unfold Spec._setFlg
  refine .ite (fun _ => spares_self) fun _ => .bind' fun i _ => .ite (fun _ => spares_self) fun _ => ?_
  exact .ok (Model.contexts_foldl (fun a t => Model.contexts_offer i t a) _ _)

theorem spares_clrFlg {flgid : Int} {clrptn : FLGPTN} : Spares a (clrFlg flgid clrptn a) := by
  unfold Spec.clrFlg
  refine .ite (fun _ => spares_self) fun _ => .bind' fun i _ => ?_
  exact .ite (fun _ => spares_self) fun _ => .ok rfl

theorem spares_waiFlg {flgid : Int} {waiptn : FLGPTN} {wfmode : MODE} {p : VP} :
    Spares a (_waiFlg flgid waiptn wfmode p tmout a) := by
  unfold Spec._waiFlg
  refine .ite (fun _ => spares_self) fun _ => .ite (fun _ => spares_self) fun _ => ?_
  refine .bind' fun i _ => .bind' fun t _ => .ite (fun _ => .ok (by simp)) fun _ => ?_
  refine .ite (fun _ => .ok (by simp)) fun _ => .ite (fun _ => .ok ?_) fun _ => ?_
  · exact (Model.contexts_setCore rfl rfl).trans
      ((Model.contexts_setCore rfl rfl).trans (Model.contexts_setTcb (by simp)))
  · exact .ite (fun _ => .ok (by simp)) fun _ => .ok (by simp)

theorem spares_delFlg {flgid : Int} : Spares a (Spec.delFlg flgid a) := by
  unfold Spec.delFlg
  refine .ite (fun _ => spares_self) fun _ => .bind' fun i _ => .ite (fun _ => spares_self) fun _ => ?_
  exact .ok (Model.contexts_releaseAll (o := .flg i))

theorem spares_creMbx {mbxid : Int} {pk : TCmbx} : Spares a (_creMbx mbxid pk a) := by
  unfold Spec._creMbx
  refine .ite (fun _ => spares_self) fun _ => .bind' fun i _ => ?_
  exact .ite (fun _ => spares_self) fun _ => .ok rfl

theorem spares_acreMbxLoop {pk : TCmbx} : ∀ (n : Nat) (i : Int), Spares a (acreMbxLoop pk a n i)
  | 0, _ => spares_self
  | n + 1, i => by
    unfold Spec.acreMbxLoop
    exact .bind' fun k _ => .ite (fun _ => spares_creMbx.newId) fun _ => spares_acreMbxLoop n (i + 1)

theorem spares_sndMbx {mbxid : Int} {m : Fin cfg.nmsg} : Spares a (Spec._sndMbx mbxid m a) := by
  unfold Spec._sndMbx
  refine .ite (fun _ => spares_self) fun _ => .bind' fun i _ => .ite (fun _ => spares_self) fun _ => ?_
  refine .ite (fun _ => spares_self) fun _ => ?_
  split
  · exact .ok (by simp)
  · exact .bind' fun c hc => .ok (enqueueMsg_contexts m i c hc)

theorem spares_rcvMbx {mbxid : Int} {p : VP} : Spares a (_rcvMbx mbxid p tmout a) := by
  unfold Spec._rcvMbx
  refine .ite (fun _ => spares_self) fun _ => .ite (fun _ => spares_self) fun _ => ?_
  refine .bind' fun i _ => .bind' fun t _ => .ite (fun _ => .ok (by simp)) fun _ => ?_
  refine .ite (fun _ => .ok ?_) fun _ => .ite (fun _ => .ok (by simp)) fun _ => .ok (by simp)
  exact (Model.contexts_setCore rfl rfl).trans (Model.contexts_setTcb (by simp))

theorem spares_delMbx {mbxid : Int} : Spares a (Spec.delMbx mbxid a) := by
  unfold Spec.delMbx
  refine .ite (fun _ => spares_self) fun _ => .bind' fun i _ => .ite (fun _ => spares_self) fun _ => ?_
  exact .ok (Model.contexts_releaseAll (o := .mbx i))

theorem timerHandler_contexts (a : Model cfg) : (timerHandler a).contexts = a.contexts := by
  unfold timerHandler
  rw [Model.contexts_setCore (by unfold timerHwExit; split <;> rfl)
    (by unfold timerHwExit; split <;> rfl), Model.contexts_tick, Model.contexts_account,
    Model.contexts_setCore rfl rfl]

/-- The calls that write contexts. -/
def Call.stacking : Call cfg → Prop
  | .creTsk _ _ | .acreTsk _ | .actTsk _ | .iactTsk _ | .extTsk => True
  | _ => False

/-- **No other step touches a context.** -/
theorem exec_contexts (hc : ¬ Call.stacking c) : Spares a (exec c a) := by
  cases c with
  | creTsk | acreTsk | actTsk | iactTsk | extTsk => exact absurd trivial hc
  | delTsk tskid => exact spares_delTsk
  | chgPri tskid tskpri => exact spares_chgPri
  | rotRdq tskpri => exact spares_rotRdq
  | dlyTsk dlytim => exact .bind' fun t _ => .ok (by simp)
  | susTsk tskid => exact spares_susTsk
  | rsmTsk tskid => exact spares_rsmTsk
  | slpTsk => exact spares_slpTsk
  | tslpTsk tmout => exact spares_slpTsk
  | wupTsk tskid => exact spares_wupTsk.dispatchIfOk
  | iwupTsk tskid => exact spares_wupTsk
  | canWup tskid => exact spares_canWup
  | creSem semid pk => exact .ite (fun _ => spares_self) fun _ => spares_creSem
  | acreSem pk => exact spares_acreSemLoop _ _
  | waiSem semid => exact spares_waiSem
  | twaiSem semid tmout => exact spares_waiSem
  | polSem semid => exact spares_waiSem
  | sigSem semid => exact spares_sigSem.dispatchAll
  | isigSem semid => exact spares_sigSem
  | delSem semid => exact spares_delSem
  | refSem semid => exact fun v hv => congrArg Model.contexts (exec_refSem hv)
  | creFlg flgid pk => exact .ite (fun _ => spares_self) fun _ => spares_creFlg
  | acreFlg pk => exact spares_acreFlgLoop _ _
  | setFlg flgid setptn => exact spares_setFlg.dispatchAll
  | isetFlg flgid setptn => exact spares_setFlg
  | clrFlg flgid clrptn => exact spares_clrFlg
  | waiFlg flgid waiptn wfmode p => exact spares_waiFlg
  | twaiFlg flgid waiptn wfmode p tmout => exact spares_waiFlg
  | polFlg flgid waiptn wfmode p => exact spares_waiFlg
  | refFlg flgid => exact fun v hv => congrArg Model.contexts (exec_refFlg hv)
  | delFlg flgid => exact spares_delFlg
  | creMbx mbxid pk => exact .ite (fun _ => spares_self) fun _ => spares_creMbx
  | acreMbx pk => exact spares_acreMbxLoop _ _
  | sndMbx mbxid m => exact spares_sndMbx.dispatchAll
  | rcvMbx mbxid p => exact spares_rcvMbx
  | trcvMbx mbxid p tmout => exact spares_rcvMbx
  | prcvMbx mbxid p => exact spares_rcvMbx
  | refMbx mbxid => exact fun v hv => congrArg Model.contexts (exec_refMbx hv)
  | delMbx mbxid => exact spares_delMbx
  | timerHandler => exact .ok (timerHandler_contexts a)
  | dispatch => exact .ok rfl
  | setMsgpri m pri => exact .ok rfl

/-! ## Handlers -/

namespace Model

theorem runtsk_cancel : (a.cancel t).runtsk = a.runtsk := by
  unfold cancel
  rcases deqObj_cases t (a.deq .timer t) with ⟨-, h⟩ | ⟨o, -, h⟩
  · rw [h]
    rfl
  · rw [h]
    rfl

theorem runtsk_leaveWait : (a.leaveWait t).runtsk = a.runtsk := by
  unfold leaveWait
  dsimp only
  split <;> rfl

theorem runtsk_endWait : (a.endWait t).runtsk = a.runtsk := by
  rw [endWait, runtsk_leaveWait, runtsk_cancel]

theorem runtsk_release {e : ER} : (a.release t e).runtsk = a.runtsk := by
  rw [release, runtsk_endWait]
  rfl

theorem runtsk_foldl {op : Model cfg → TskIx cfg → Model cfg}
    (hop : ∀ a t, (op a t).runtsk = a.runtsk) :
    ∀ (ts : List (TskIx cfg)) (a : Model cfg), (ts.foldl op a).runtsk = a.runtsk
  | [], _ => rfl
  | t :: ts, a => (runtsk_foldl hop ts (op a t)).trans (hop a t)

theorem runtsk_offer (i : FlgIx cfg) (t : TskIx cfg) (a : Model cfg) :
    (a.offer i t).runtsk = a.runtsk := by
  unfold offer
  dsimp only
  split
  · exact runtsk_release
  · rfl

theorem runtsk_tick : a.tick.runtsk = a.runtsk := by
  refine runtsk_foldl (fun a t => ?_) _ _
  unfold tickOne
  dsimp only
  split
  · exact runtsk_endWait
  · rfl

theorem runtsk_account : a.account.runtsk = a.runtsk := by
  unfold account
  dsimp only
  split <;> rfl

end Model

/-- **The calls of a handler leave the running task the running one.** -/
theorem exec_inHandler (hc : c.inHandler = true) :
    Ensures (exec c a) fun v => v.1.runtsk = a.runtsk := by
  have hself : ∀ {r : Ret cfg}, Ensures (.ok (a, r) : Outcome cfg) fun v => v.1.runtsk = a.runtsk :=
    .ok rfl
  cases c with
  | iactTsk tskid =>
    refine .ite (fun _ => hself) fun _ => .bind' fun t _ => .ite (fun _ => hself) fun _ => ?_
    exact .ite (fun _ => .ite (fun _ => hself) fun _ => .ok rfl) fun _ => .ok rfl
  | iwupTsk tskid =>
    refine .ite (fun _ => hself) fun _ => .bind' fun t _ => .ite (fun _ => hself) fun _ => ?_
    refine .ite (fun _ => hself) fun _ => .ite (fun _ => .ok Model.runtsk_release) fun _ => ?_
    exact .ite (fun _ => hself) fun _ => .ok rfl
  | isigSem semid =>
    refine .ite (fun _ => hself) fun _ => .bind' fun i _ => .ite (fun _ => hself) fun _ => ?_
    split
    · exact .ok Model.runtsk_release
    · exact .ite (fun _ => hself) fun _ => .ok rfl
  | isetFlg flgid setptn =>
    refine .ite (fun _ => hself) fun _ => .bind' fun i _ => .ite (fun _ => hself) fun _ => ?_
    exact .ok (Model.runtsk_foldl (fun a t => Model.runtsk_offer i t a) _ _)
  | timerHandler =>
    refine .ok ?_
    show (Model.tick _).runtsk = _
    rw [Model.runtsk_tick, Model.runtsk_account]
    rfl
  | _ => cases hc

end Ittrium.Spec
