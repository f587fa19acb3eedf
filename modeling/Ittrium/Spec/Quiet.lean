import Ittrium.Spec.Objects

/-!
# What a control block keeps

* `Quiet tcb tcb'` — the timer is not touched, and a task that exists goes on existing
* `exec_quiet` — **only a tick and a wait that begins touch a timer, and only `del_tsk` removes a
  task**
-/

namespace Ittrium.Spec

open Infra

variable {cfg : Config} {a a' a'' : Model cfg} {t u : TskIx cfg} {o : ObjId cfg} {c : Call cfg}
  {r : Ret cfg} {tmout : TMO}

/-! ## State changes -/

/-- The timer is the same, and a task that exists goes on existing. -/
structure Quiet (tcb tcb' : TCB cfg) : Prop where
  wtmeb : tcb'.wtmeb = tcb.wtmeb
  lasts : tcb.state ≠ .noexs → tcb'.state ≠ .noexs

/-- All tasks keep their timers and their existence. -/
def Quietly (a a' : Model cfg) : Prop := ∀ t, Quiet (a.core.tcb t) (a'.core.tcb t)

namespace Quietly

theorem of_tcb {b : Model cfg} (h : b.core.tcb = a.core.tcb) : Quietly a b := by
  intro t
  rw [h]
  exact ⟨rfl, id⟩

theorem refl (a : Model cfg) : Quietly a a := of_tcb rfl

theorem trans (h : Quietly a a') (h' : Quietly a' a'') : Quietly a a'' := fun t =>
  ⟨(h' t).wtmeb.trans (h t).wtmeb, fun hs => (h' t).lasts ((h t).lasts hs)⟩

theorem dispatch (h : Quietly a a') : Quietly a a'.dispatch := h

/-- Only `t` is touched. -/
theorem of_others (h : Others t a a') (ht : Quiet (a.core.tcb t) (a'.core.tcb t)) :
    Quietly a a' := by
  intro u
  by_cases hu : u = t
  · rw [hu]
    exact ht
  · rw [h.tcb u hu]
    exact ⟨rfl, id⟩

theorem setTcb (f : TCB cfg → TCB cfg) (hf : Quiet (a.core.tcb t) (f (a.core.tcb t))) :
    Quietly a (a.setTcb t f) :=
  of_others (.setTcb t f a) (by rwa [Model.setTcb_tcb_self])

theorem makeReady (t : TskIx cfg) (a : Model cfg) : Quietly a (a.makeReady t) :=
  (setTcb (fun tcb => { tcb with state := .rdy }) ⟨rfl, fun _ => by simp⟩).trans (of_tcb rfl)

theorem leaveWait (t : TskIx cfg) (a : Model cfg) : Quietly a (a.leaveWait t) := by
  have h : Quietly a (a.setTcb t fun tcb => { tcb with tskwait := .none }) := setTcb _ ⟨rfl, id⟩
  unfold Model.leaveWait
  dsimp only
  split
  · exact h.trans (makeReady t _)
  · exact h.trans (setTcb _ ⟨rfl, fun _ => by simp⟩)

theorem endWait (t : TskIx cfg) (a : Model cfg) : Quietly a (a.endWait t) :=
  (of_tcb (by rw [Model.cancel_core])).trans (leaveWait t _)

theorem release (t : TskIx cfg) (e : ER) (a : Model cfg) : Quietly a (a.release t e) :=
  (setTcb (fun tcb => { tcb with ercd := e }) ⟨rfl, id⟩).trans (endWait t _)

/-- Something else is written before. -/
theorem release_setCore {f : Core cfg → Core cfg} (hf : (f a.core).tcb = a.core.tcb) (e : ER) :
    Quietly a ((a.setCore f).release t e) :=
  (of_tcb (b := a.setCore f) hf).trans (release t e _)

theorem activate (t : TskIx cfg) (a : Model cfg) : Quietly a (a.activate t) := by
  obtain ⟨ctx, hctx⟩ := makeTaskContext_tcb_self t a.core
  have h : Quietly a (a.setCore (makeTaskContext t)) := by
    refine of_others (.makeTaskContext t a) ?_
    show Quiet _ ((makeTaskContext t a.core).tcb t)
    rw [hctx]
    exact ⟨rfl, id⟩
  exact h.trans (makeReady t _)

theorem taskMakeDormant (t : TskIx cfg) (a : Model cfg) :
    Quietly a (a.setCore (taskMakeDormant t)) := by
  refine of_others (.taskMakeDormant t a) ?_
  show Quiet _ ((Ittrium.taskMakeDormant t a.core).tcb t)
  rw [taskMakeDormant_tcb_self]
  exact ⟨rfl, fun _ => by simp⟩

theorem create (t : TskIx cfg) (pk : TCtsk) (a : Model cfg) : Quietly a (a.create t pk) := by
  refine (of_tcb (b := a.deq .free t) rfl).trans ((setTcb _ ?_).trans (taskMakeDormant t _))
  exact ⟨rfl, id⟩

theorem changePri (t : TskIx cfg) (p : Int) (a : Model cfg) : Quietly a (a.changePri t p) := by
  have h : Quietly (a.makeUnready t) ((a.makeUnready t).setTcb t fun tcb =>
    { tcb with tskpri := p }) := setTcb _ ⟨rfl, id⟩
  exact (of_tcb rfl).trans (h.trans (of_tcb rfl))

theorem exit (t : TskIx cfg) (a : Model cfg) : Quietly a (a.exit t) := by
  have h : Quietly a ((a.makeUnready t).setCore (Ittrium.taskMakeDormant t)) :=
    (of_tcb (b := a.makeUnready t) rfl).trans (taskMakeDormant t _)
  unfold Model.exit
  dsimp only
  split
  · exact h.trans ((setTcb _ ⟨rfl, id⟩).trans (activate t _))
  · exact h

theorem suspend (t : TskIx cfg) (a : Model cfg) : Quietly a (a.suspend t) := by
  have h : Quietly a (a.setTcb t fun tcb => { tcb with suscnt := tcb.suscnt + 1 }) :=
    setTcb _ ⟨rfl, id⟩
  unfold Model.suspend
  dsimp only
  split
  · exact h.trans ((of_tcb rfl).trans (setTcb _ ⟨rfl, fun _ => by simp⟩))
  · split
    · exact h.trans (setTcb _ ⟨rfl, fun _ => by simp⟩)
    · exact h

theorem resume (t : TskIx cfg) (a : Model cfg) : Quietly a (a.resume t) := by
  have h : Quietly a (a.setTcb t fun tcb => { tcb with suscnt := tcb.suscnt - 1 }) :=
    setTcb _ ⟨rfl, id⟩
  unfold Model.resume
  dsimp only
  split
  · split
    · exact h.trans (setTcb _ ⟨rfl, fun _ => by simp⟩)
    · exact h.trans (makeReady t _)
  · exact h

theorem offer (i : FlgIx cfg) (t : TskIx cfg) (a : Model cfg) : Quietly a (a.offer i t) := by
  unfold Model.offer
  dsimp only
  split
  · exact release_setCore rfl .ok
  · exact refl a

theorem handOver (m : Fin cfg.nmsg) (t : TskIx cfg) (a : Model cfg) :
    Quietly a (a.handOver m t) :=
  release_setCore rfl .ok

/-- A loop all rounds of which are quiet. -/
theorem foldl {op : Model cfg → TskIx cfg → Model cfg} (hop : ∀ a t, Quietly a (op a t)) :
    ∀ (ts : List (TskIx cfg)) (a : Model cfg), Quietly a (ts.foldl op a)
  | [], a => refl a
  | t :: ts, a => (hop a t).trans (foldl hop ts (op a t))

theorem releaseAll (o : ObjId cfg) (a : Model cfg) : Quietly a (a.releaseAll o) :=
  foldl (fun a t => release t .dlt a) _ a

end Quietly

/-! ## Calls about tasks -/

/-- If the call returns at once, it is quiet. -/
abbrev Quiets (a : Model cfg) (x : Outcome cfg) : Prop :=
  Ensures x fun v => v.2 ≠ .blocked → Quietly a v.1

theorem Quietly.quiets (h : Quietly a a') : Quiets a (.ok (a', r)) := .ok fun _ => h

theorem quiets_same (h : a'.core.tcb = a.core.tcb) : Quiets a (.ok (a', r)) :=
  (Quietly.of_tcb h).quiets

theorem quiets_self : Quiets a (.ok (a, r)) := quiets_same rfl

/-- Data of one task that is neither its timer nor its state. -/
theorem quietly_setTcb (f : TCB cfg → TCB cfg)
    (hf : ∀ tcb, (f tcb).wtmeb = tcb.wtmeb ∧ (f tcb).state = tcb.state) :
    Quietly a (a.setTcb t f) :=
  .setTcb f ⟨(hf _).1, fun hs => by rwa [(hf _).2]⟩

theorem quiets_setTcb {f : TCB cfg → TCB cfg}
    (hf : ∀ tcb, (f tcb).wtmeb = tcb.wtmeb ∧ (f tcb).state = tcb.state) :
    Quiets a (.ok (a.setTcb t f, r)) :=
  (quietly_setTcb f hf).quiets

theorem quiets_setTcb_dispatch {f : TCB cfg → TCB cfg}
    (hf : ∀ tcb, (f tcb).wtmeb = tcb.wtmeb ∧ (f tcb).state = tcb.state) :
    Quiets a (.ok ((a.setTcb t f).dispatch, r)) :=
  (quietly_setTcb f hf).dispatch.quiets

theorem quiets_blocked : Quiets a (.ok (a', .blocked)) := .ok fun h => absurd rfl h

theorem Quiets.dispatchIfOk {x : Outcome cfg} (h : Quiets a x) : Quiets a (Spec.dispatchIfOk x) := by
  refine Ensures.bind (h.mono fun v hv => .ok fun hr => ?_)
  dsimp only
  split
  · exact hv hr
  · exact hv hr

theorem Quiets.dispatchAll {x : Outcome cfg} (h : Quiets a x) : Quiets a (Spec.dispatchAll x) :=
  Ensures.bind (h.mono fun _ hv => .ok fun hr => hv hr)

/-- The ID found is returned instead of `E_OK`. -/
theorem Quiets.newId {x : Outcome cfg} {i : Int} (h : Quiets a x) :
    Quiets a (do let (a, r) ← x; .ok (a, if r = .er .ok then .newId i else r)) := by
  refine Ensures.bind (h.mono fun v hv => .ok fun hr => hv fun he => hr ?_)
  dsimp only
  rw [he]
  rfl

theorem quiets_creTsk {tskid : Int} {pk : TCtsk} : Quiets a (Spec.creTsk tskid pk a) := by
  unfold Spec.creTsk
  refine .ite (fun _ => quiets_self) fun _ => .bind' fun t _ => .ite (fun _ => quiets_self) fun _ => ?_
  exact .ite (fun _ => quiets_self) fun _ => (Quietly.create t pk a).quiets

theorem quiets_acreTskLoop {pk : TCtsk} :
    ∀ (n : Nat) (i : Int), Quiets a (Spec.acreTskLoop pk a n i)
  | 0, _ => quiets_self
  | n + 1, i => by
    unfold Spec.acreTskLoop
    exact .bind' fun t _ => .ite (fun _ => quiets_creTsk.newId) fun _ => quiets_acreTskLoop n (i + 1)

theorem quiets_actTsk {tskid : Int} : Quiets a (_actTsk tskid a) := by
  unfold Spec._actTsk
  refine .ite (fun _ => quiets_self) fun _ => .bind' fun t _ => .ite (fun _ => quiets_self) fun _ => ?_
  refine .ite (fun _ => .ite (fun _ => quiets_self) fun _ => ?_) fun _ => (Quietly.activate t a).quiets
  exact quiets_setTcb fun _ => ⟨rfl, rfl⟩

theorem quiets_chgPri {tskid tskpri : Int} : Quiets a (Spec.chgPri tskid tskpri a) := by
  unfold Spec.chgPri
  refine .ite (fun _ => quiets_self) fun _ => .ite (fun _ => quiets_self) fun _ => .bind' fun t _ => ?_
  refine .ite (fun _ => quiets_self) fun _ => .ite (fun _ => quiets_self) fun _ => ?_
  exact (Quietly.changePri t _ a).dispatch.quiets

theorem quiets_rotRdq {tskpri : Int} : Quiets a (rotRdq tskpri a) := by
  unfold Spec.rotRdq
  refine .ite (fun _ => quiets_same rfl) fun _ => ?_
  exact .ite (fun _ => quiets_self) fun _ => quiets_same rfl

theorem quiets_susTsk {tskid : Int} : Quiets a (Spec.susTsk tskid a) := by
  unfold Spec.susTsk
  refine .ite (fun _ => quiets_self) fun _ => .bind' fun t _ => .ite (fun _ => quiets_same rfl) fun _ => ?_
  refine .ite (fun _ => quiets_same rfl) fun _ => .ite (fun _ => quiets_same rfl) fun _ => ?_
  exact (Quietly.suspend t a).dispatch.quiets

theorem quiets_rsmTsk {tskid : Int} : Quiets a (Spec.rsmTsk tskid a) := by
  unfold Spec.rsmTsk
  refine .ite (fun _ => quiets_self) fun _ => .bind' fun t _ => .ite (fun _ => quiets_same rfl) fun _ => ?_
  exact .ite (fun _ => quiets_same rfl) fun _ => (Quietly.resume t a).dispatch.quiets

theorem quiets_slpTsk : Quiets a (_slpTsk tmout a) := by
  unfold Spec._slpTsk
  refine .bind' fun t _ => .ite (fun _ => ?_) fun _ => .ite (fun _ => quiets_blocked) fun _ => ?_
  · exact quiets_setTcb_dispatch fun _ => ⟨rfl, rfl⟩
  · exact quiets_setTcb_dispatch fun _ => ⟨rfl, rfl⟩

theorem quiets_wupTsk {tskid : Int} : Quiets a (Spec._wupTsk tskid a) := by
  unfold Spec._wupTsk
  refine .ite (fun _ => quiets_self) fun _ => .bind' fun t _ => .ite (fun _ => quiets_self) fun _ => ?_
  refine .ite (fun _ => quiets_self) fun _ => .ite (fun _ => (Quietly.release t .ok a).quiets) fun _ => ?_
  exact .ite (fun _ => quiets_self) fun _ => quiets_setTcb fun _ => ⟨rfl, rfl⟩

theorem quiets_canWup {tskid : Int} : Quiets a (canWup tskid a) := by
  unfold Spec.canWup
  refine .ite (fun _ => quiets_self) fun _ => .bind' fun t _ => .ite (fun _ => quiets_self) fun _ => ?_
  exact .ite (fun _ => quiets_self) fun _ => quiets_setTcb fun _ => ⟨rfl, rfl⟩

/-! ## Calls on objects -/

theorem quiets_creSem {semid : Int} {pk : TCsem} : Quiets a (_creSem semid pk a) := by
  unfold Spec._creSem
  refine .ite (fun _ => quiets_self) fun _ => .ite (fun _ => quiets_self) fun _ => .bind' fun i _ => ?_
  exact .ite (fun _ => quiets_self) fun _ => quiets_same rfl

theorem quiets_acreSemLoop {pk : TCsem} : ∀ (n : Nat) (i : Int), Quiets a (acreSemLoop pk a n i)
  | 0, _ => quiets_self
  | n + 1, i => by
    unfold Spec.acreSemLoop
    exact .bind' fun k _ => .ite (fun _ => quiets_creSem.newId) fun _ => quiets_acreSemLoop n (i + 1)

theorem quiets_waiSem {semid : Int} : Quiets a (_waiSem semid tmout a) := by
  unfold Spec._waiSem
  refine .ite (fun _ => quiets_self) fun _ => .bind' fun i _ => .ite (fun _ => quiets_self) fun _ => ?_
  refine .bind' fun t _ => .ite (fun _ => ?_) fun _ => .ite (fun _ => quiets_blocked) fun _ => ?_
  · have h : Quietly a (a.setCore (Core.setSemcb i fun cb => { cb with semcnt := cb.semcnt - 1 })) :=
      .of_tcb rfl
    exact .ok fun _ => h.trans (.dispatch (quietly_setTcb _ fun _ => ⟨rfl, rfl⟩))
  · exact quiets_setTcb_dispatch fun _ => ⟨rfl, rfl⟩

theorem quiets_sigSem {semid : Int} : Quiets a (Spec._sigSem semid a) := by
  unfold Spec._sigSem
  refine .ite (fun _ => quiets_self) fun _ => .bind' fun i _ => .ite (fun _ => quiets_self) fun _ => ?_
  split
  · next t _ _ => exact (Quietly.release t .ok a).quiets
  · exact .ite (fun _ => quiets_self) fun _ => quiets_same rfl

theorem quiets_delSem {semid : Int} : Quiets a (Spec.delSem semid a) := by
  unfold Spec.delSem
  refine .ite (fun _ => quiets_self) fun _ => .bind' fun i _ => .ite (fun _ => quiets_self) fun _ => ?_
  exact .ok fun _ => Quietly.releaseAll (.sem i) a

theorem quiets_creFlg {flgid : Int} {pk : TCflg} : Quiets a (_creFlg flgid pk a) := by
  unfold Spec._creFlg
  refine .ite (fun _ => quiets_self) fun _ => .bind' fun i _ => ?_
  exact .ite (fun _ => quiets_self) fun _ => quiets_same rfl

theorem quiets_acreFlgLoop {pk : TCflg} : ∀ (n : Nat) (i : Int), Quiets a (acreFlgLoop pk a n i)
  | 0, _ => quiets_self
  | n + 1, i => by
    unfold Spec.acreFlgLoop
    exact .bind' fun k _ => .ite (fun _ => quiets_creFlg.newId) fun _ => quiets_acreFlgLoop n (i + 1)

theorem quiets_setFlg {flgid : Int} {setptn : FLGPTN} : Quiets a (Spec._setFlg flgid setptn a) := by
  unfold Spec._setFlg
  refine .ite (fun _ => quiets_self) fun _ => .bind' fun i _ => .ite (fun _ => quiets_self) fun _ => ?_
  exact ((Quietly.of_tcb rfl).trans (.foldl (fun a t => .offer i t a) _ _)).quiets

theorem quiets_clrFlg {flgid : Int} {clrptn : FLGPTN} : Quiets a (clrFlg flgid clrptn a) := by
  unfold Spec.clrFlg
  refine .ite (fun _ => quiets_self) fun _ => .bind' fun i _ => ?_
  exact .ite (fun _ => quiets_self) fun _ => quiets_same rfl

theorem quiets_waiFlg {flgid : Int} {waiptn : FLGPTN} {wfmode : MODE} {p : VP} :
    Quiets a (_waiFlg flgid waiptn wfmode p tmout a) := by
  have herc : ∀ (t : TskIx cfg) (e : ER), Quietly a (a.setTcb t fun tcb => { tcb with ercd := e }) :=
    fun t e => quietly_setTcb _ fun _ => ⟨rfl, rfl⟩
  unfold Spec._waiFlg
  refine .ite (fun _ => quiets_self) fun _ => .ite (fun _ => quiets_self) fun _ => ?_
  refine .bind' fun i _ => .bind' fun t _ => .ite (fun _ => (herc t _).quiets) fun _ => ?_
  refine .ite (fun _ => (herc t _).quiets) fun _ => .ite (fun _ => ?_) fun _ => ?_
  · exact .ok fun _ => herc t .ok
  · exact .ite (fun _ => quiets_blocked) fun _ => (herc t _).quiets

theorem quiets_delFlg {flgid : Int} : Quiets a (Spec.delFlg flgid a) := by
  unfold Spec.delFlg
  refine .ite (fun _ => quiets_self) fun _ => .bind' fun i _ => .ite (fun _ => quiets_self) fun _ => ?_
  exact .ok fun _ => Quietly.releaseAll (.flg i) a

theorem quiets_creMbx {mbxid : Int} {pk : TCmbx} : Quiets a (_creMbx mbxid pk a) := by
  unfold Spec._creMbx
  refine .ite (fun _ => quiets_self) fun _ => .bind' fun i _ => ?_
  exact .ite (fun _ => quiets_self) fun _ => quiets_same rfl

theorem quiets_acreMbxLoop {pk : TCmbx} : ∀ (n : Nat) (i : Int), Quiets a (acreMbxLoop pk a n i)
  | 0, _ => quiets_self
  | n + 1, i => by
    unfold Spec.acreMbxLoop
    exact .bind' fun k _ => .ite (fun _ => quiets_creMbx.newId) fun _ => quiets_acreMbxLoop n (i + 1)

theorem quiets_sndMbx {mbxid : Int} {m : Fin cfg.nmsg} : Quiets a (Spec._sndMbx mbxid m a) := by
  unfold Spec._sndMbx
  refine .ite (fun _ => quiets_self) fun _ => .bind' fun i _ => .ite (fun _ => quiets_self) fun _ => ?_
  refine .ite (fun _ => quiets_self) fun _ => ?_
  split
  · next t _ _ => exact (Quietly.handOver m t a).quiets
  · exact .bind' fun c hc => quiets_same (enqueueMsg_same m i a.core c hc).tcb

theorem quiets_rcvMbx {mbxid : Int} {p : VP} : Quiets a (_rcvMbx mbxid p tmout a) := by
  have herc : ∀ (t : TskIx cfg) (e : ER), Quietly a (a.setTcb t fun tcb => { tcb with ercd := e }) :=
    fun t e => quietly_setTcb _ fun _ => ⟨rfl, rfl⟩
  unfold Spec._rcvMbx
  refine .ite (fun _ => quiets_self) fun _ => .ite (fun _ => quiets_self) fun _ => ?_
  refine .bind' fun i _ => .bind' fun t _ => .ite (fun _ => (herc t _).quiets) fun _ => ?_
  refine .ite (fun _ => .ok fun _ => herc t .ok) fun _ => ?_
  exact .ite (fun _ => quiets_blocked) fun _ => (herc t _).quiets

theorem quiets_delMbx {mbxid : Int} : Quiets a (Spec.delMbx mbxid a) := by
  unfold Spec.delMbx
  refine .ite (fun _ => quiets_self) fun _ => .bind' fun i _ => .ite (fun _ => quiets_self) fun _ => ?_
  exact .ok fun _ => Quietly.releaseAll (.mbx i) a

/-! ## All steps -/

/-- **Only a tick and a wait that begins touch a timer, and only `del_tsk` removes a task.** -/
theorem exec_quiet (hc : c ≠ .timerHandler) (hd : ∀ tskid, c ≠ .delTsk tskid) : Quiets a (exec c a) := by
  cases c with
  | creTsk tskid pk => exact quiets_creTsk
  | acreTsk pk => exact quiets_acreTskLoop _ _
  | delTsk tskid => exact absurd rfl (hd tskid)
  | actTsk tskid => exact quiets_actTsk.dispatchIfOk
  | iactTsk tskid => exact quiets_actTsk
  | chgPri tskid tskpri => exact quiets_chgPri
  | rotRdq tskpri => exact quiets_rotRdq
  | extTsk => exact .bind' fun t _ => (Quietly.exit t a).dispatch.quiets
  | dlyTsk dlytim => exact .bind' fun t _ => quiets_blocked
  | susTsk tskid => exact quiets_susTsk
  | rsmTsk tskid => exact quiets_rsmTsk
  | slpTsk => exact quiets_slpTsk
  | tslpTsk tmout => exact quiets_slpTsk
  | wupTsk tskid => exact quiets_wupTsk.dispatchIfOk
  | iwupTsk tskid => exact quiets_wupTsk
  | canWup tskid => exact quiets_canWup
  | creSem semid pk => exact .ite (fun _ => quiets_self) fun _ => quiets_creSem
  | acreSem pk => exact quiets_acreSemLoop _ _
  | waiSem semid => exact quiets_waiSem
  | twaiSem semid tmout => exact quiets_waiSem
  | polSem semid => exact quiets_waiSem
  | sigSem semid => exact quiets_sigSem.dispatchAll
  | isigSem semid => exact quiets_sigSem
  | delSem semid => exact quiets_delSem
  | refSem semid => exact fun v hv _ => by rw [exec_refSem hv]; exact .refl a
  | creFlg flgid pk => exact .ite (fun _ => quiets_self) fun _ => quiets_creFlg
  | acreFlg pk => exact quiets_acreFlgLoop _ _
  | setFlg flgid setptn => exact quiets_setFlg.dispatchAll
  | isetFlg flgid setptn => exact quiets_setFlg
  | clrFlg flgid clrptn => exact quiets_clrFlg
  | waiFlg flgid waiptn wfmode p => exact quiets_waiFlg
  | twaiFlg flgid waiptn wfmode p tmout => exact quiets_waiFlg
  | polFlg flgid waiptn wfmode p => exact quiets_waiFlg
  | refFlg flgid => exact fun v hv _ => by rw [exec_refFlg hv]; exact .refl a
  | delFlg flgid => exact quiets_delFlg
  | creMbx mbxid pk => exact .ite (fun _ => quiets_self) fun _ => quiets_creMbx
  | acreMbx pk => exact quiets_acreMbxLoop _ _
  | sndMbx mbxid m => exact quiets_sndMbx.dispatchAll
  | rcvMbx mbxid p => exact quiets_rcvMbx
  | trcvMbx mbxid p tmout => exact quiets_rcvMbx
  | prcvMbx mbxid p => exact quiets_rcvMbx
  | refMbx mbxid => exact fun v hv _ => by rw [exec_refMbx hv]; exact .refl a
  | delMbx mbxid => exact quiets_delMbx
  | timerHandler => exact absurd rfl hc
  | dispatch => exact quiets_same rfl
  | setMsgpri m pri => exact quiets_same rfl

end Ittrium.Spec
