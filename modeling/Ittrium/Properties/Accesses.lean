import Ittrium.Properties.Runs
import Ittrium.Refine.Twins

/-!
# Accesses to `priq` and `bitmap`

A call stays inside the two arrays if what lies past their ends makes no difference to it, and it
makes none to what lies there.

* `InBounds s c` — the call neither reads nor writes what is outside
* `GoodIndex s c` — the task created has a priority, and the line rotated exists
* `accesses_inBounds` — **a run of such calls stays inside the arrays**
-/

namespace Ittrium

open Infra Spec Refine

variable {cfg : Config} {m s s' w : Kernel cfg} {c : Call cfg} {r : Ret cfg} {t : TskIx cfg}

/-! ## Bounds -/

/-- The call neither reads nor writes what lies outside. -/
def InBounds (s : Kernel cfg) (c : Call cfg) : Prop :=
  ∀ m, exec c (withOutside m s) = (exec c s).map fun v => (withOutside m v.1, v.2)

theorem withOutside_prev {x : Node cfg} (hx : Outside x) :
    (withOutside m s).links.prev x = m.links.prev x := if_pos hx

/-- A task has been created. -/
def Created (x : Outcome cfg) : Prop := ∃ s r, x = .ok (s, r) ∧ (r = .er .ok ∨ ∃ i, r = .newId i)

/-- The priority of a task that is created is valid, and `rot_rdq(TPRI_INI)` is not called when
there is something to run but no line has a bit set. -/
def GoodIndex (s : Kernel cfg) : Call cfg → Prop
  | .creTsk tskid pk =>
    Created (creTsk tskid pk s) → tminTpri ≤ pk.itskpri ∧ pk.itskpri ≤ cfg.tmaxTpri
  | .acreTsk pk => Created (acreTsk pk s) → tminTpri ≤ pk.itskpri ∧ pk.itskpri ≤ cfg.tmaxTpri
  | .rotRdq tskpri =>
    tskpri = tpriIni → s.schedtsk ≠ .null → s.rdyq.topPriority ≠ cfg.tmaxTpri
  | _ => True

/-- Both calls give the same result, and twins, or fail in the same way. -/
abbrev TwinCall (m : Kernel cfg) (x y : Outcome cfg) : Prop :=
  Agree (fun v w => Twin m v.1 w.1 ∧ v.2 = w.2) x y

theorem TwinCall.dispatchIfOk {x y : Outcome cfg} (h : TwinCall m x y) :
    TwinCall m (dispatchIfOk x) (dispatchIfOk y) := by
  refine h.bind fun v w hvw => .ok ⟨?_, hvw.2⟩
  dsimp only
  rw [hvw.2]
  exact .ite Iff.rfl (fun _ => hvw.1.dispatch) fun _ => hvw.1

theorem TwinCall.dispatchAll {x y : Outcome cfg} (h : TwinCall m x y) :
    TwinCall m (do let (s, r) ← x; .ok (dispatch s, r)) (do let (s, r) ← y; .ok (dispatch s, r)) :=
  h.bind fun _ _ hvw => .ok ⟨hvw.1.dispatch, hvw.2⟩

namespace Twin

theorem ret (h : Twin m s w) : TwinCall m (.ok (s, r)) (.ok (w, r)) := .ok ⟨h, rfl⟩

theorem badTskid (h : Twin m s w) (tskid : Int) : badTskid tskid w = badTskid tskid s := by
  unfold Ittrium.badTskid
  rw [h.runtsk]

theorem getTcbSelf (h : Twin m s w) (tskid : Int) : getTcbSelf tskid w = getTcbSelf tskid s := by
  unfold Ittrium.getTcbSelf runTcb
  rw [h.runtsk]

theorem runTcb (h : Twin m s w) : runTcb w = runTcb s := congrArg tcbOf h.runtsk

/-! ## Calls about tasks -/

theorem creTsk {tskid : Int} {pk : TCtsk} (h : Twin m s w)
    (hpri : Created (creTsk tskid pk s) → LinePri cfg (priToIndex pk.itskpri)) :
    TwinCall m (creTsk tskid pk s) (creTsk tskid pk w) := by
  unfold Ittrium.creTsk
  rw [h.core]
  refine .ite Iff.rfl (fun _ => h.ret) fun hid => .bindSame fun t ht => ?_
  refine .ite Iff.rfl (fun _ => h.ret) fun hs => .ite Iff.rfl (fun _ => h.ret) fun hk => ?_
  have hc : Created (Ittrium.creTsk tskid pk s) := by
    unfold Ittrium.creTsk
    rw [if_neg hid, ht]
    show Created (if (s.core.tcb t).state ≠ .noexs then _ else if pk.stk = 0 then _ else _)
    rw [if_neg hs, if_neg hk]
    exact ⟨_, _, rfl, Or.inl rfl⟩
  exact .ok ⟨makeDormant (setTcb_pri (h.removeQnode t) (h.1.tskpri t) (hpri hc)) t, rfl⟩

theorem acreTskLoop {pk : TCtsk} (h : Twin m s w) : ∀ (n : Nat) (i : Int),
    (Created (acreTskLoop pk s n i) → LinePri cfg (priToIndex pk.itskpri)) →
    TwinCall m (acreTskLoop pk s n i) (acreTskLoop pk w n i)
  | 0, _, _ => h.ret
  | n + 1, i, hpri => by
    unfold Ittrium.acreTskLoop at hpri ⊢
    rw [h.core]
    refine .bindSame fun t ht => ?_
    rw [ht] at hpri
    refine .ite Iff.rfl (fun hs => ?_) fun hs => acreTskLoop h n (i + 1) fun hc => hpri ?_
    · refine (h.creTsk fun hc => hpri ?_).bind fun v w hvw => .ok ⟨hvw.1, by rw [hvw.2]⟩
      obtain ⟨s', r, hx, hr⟩ := hc
      refine ⟨s', if r = .er .ok then .newId i else r, ?_, ?_⟩
      · refine (if_pos hs).trans ?_
        rw [hx]
        rfl
      · rcases hr with rfl | ⟨j, rfl⟩
        · exact Or.inr ⟨i, rfl⟩
        · exact Or.inr ⟨j, rfl⟩
    · obtain ⟨s', r, hx, hr⟩ := hc
      exact ⟨s', r, (if_neg hs).trans hx, hr⟩

theorem delTsk {tskid : Int} (h : Twin m s w) :
    TwinCall m (delTsk tskid s) (delTsk tskid w) := by
  unfold Ittrium.delTsk
  refine .ite Iff.rfl (fun _ => h.ret) fun _ => .bindSame fun t _ => ?_
  refine .ite (by rw [h.core]) (fun _ => h.ret) fun _ => ?_
  refine .ite (by rw [h.runtsk]) (fun _ => h.ret) fun _ => .ok ⟨?_, rfl⟩
  have h₁ : Twin m (if (s.core.tcb t).state.waiting then Ittrium.waitCancel t s else s)
      (if (w.core.tcb t).state.waiting then Ittrium.waitCancel t w else w) :=
    .ite (by rw [h.core]) (fun _ => h.waitCancel t) fun _ => h
  refine dispatch (setLinks (setTcb (.ite ?_ (fun _ => h₁.makeUnready t) fun _ => h₁) rfl rfl)
    (inside_kqueueInsert id id))
  rw [h₁.core]

theorem _actTsk {tskid : Int} (h : Twin m s w) :
    TwinCall m (_actTsk tskid s) (_actTsk tskid w) := by
  unfold Ittrium._actTsk
  rw [h.badTskid, h.getTcbSelf]
  refine .ite Iff.rfl (fun _ => h.ret) fun _ => .bindSame fun t _ => ?_
  rw [h.core]
  refine .ite Iff.rfl (fun _ => h.ret) fun _ => .ite Iff.rfl (fun _ => ?_) fun _ => ?_
  · exact .ite Iff.rfl (fun _ => h.ret) fun _ => .ok ⟨h.setTcb rfl rfl, rfl⟩
  · exact .ok ⟨(h.makeContext t).makeReady t, rfl⟩

theorem chgPri {tskid tskpri : Int} (h : Twin m s w) :
    TwinCall m (chgPri tskid tskpri s) (chgPri tskid tskpri w) := by
  unfold Ittrium.chgPri
  rw [h.badTskid, h.getTcbSelf]
  refine .ite Iff.rfl (fun _ => h.ret) fun _ => .ite Iff.rfl (fun _ => h.ret) fun hp => ?_
  refine .bindSame fun t _ => ?_
  rw [h.core]
  refine .ite Iff.rfl (fun _ => h.ret) fun _ => .ite Iff.rfl (fun _ => h.ret) fun _ => ?_
  refine .ok ⟨dispatch (.ite Iff.rfl (fun _ => h.changePri t (h.1.itskpri t)) fun hini => ?_), rfl⟩
  exact h.changePri t (linePri_priToIndex (by by_contra; exact hp ⟨by omega, hini⟩)
    (by by_contra; exact hp ⟨by omega, hini⟩))

theorem rotateCurrent (h : Twin m s w)
    (hrot : s.schedtsk ≠ .null → s.rdyq.topPriority ≠ cfg.tmaxTpri) :
    Twin m (rdyqRotateCurrent s) (rdyqRotateCurrent w) := by
  unfold rdyqRotateCurrent rdyqTopPri
  rw [h.schedtsk, h.topPriority]
  refine .ite Iff.rfl (fun hs => ?_) fun _ => h
  have htop := h.1.top
  have hne := hrot hs
  exact (h.rdyqRotate ⟨htop.1, by omega⟩).reschedule

theorem rotRdq {tskpri : Int} (h : Twin m s w)
    (hrot : tskpri = tpriIni → s.schedtsk ≠ .null → s.rdyq.topPriority ≠ cfg.tmaxTpri) :
    TwinCall m (rotRdq tskpri s) (rotRdq tskpri w) := by
  unfold Ittrium.rotRdq
  refine .ite Iff.rfl (fun hini => .ok ⟨(h.rotateCurrent (hrot hini)).dispatch, rfl⟩) fun _ => ?_
  refine .ite Iff.rfl (fun _ => h.ret) fun hp => .ok ⟨?_, rfl⟩
  exact (h.rdyqRotate (linePri_priToIndex (by omega) (by omega))).reschedule.dispatch

theorem extTsk (h : Twin m s w) : TwinCall m (extTsk s) (extTsk w) := by
  unfold Ittrium.extTsk
  refine .bindEq h.runTcb fun t _ => ?_
  have h₁ := (h.makeUnready t).makeDormant t
  have h₂ := h₁.setTcb (t := t) (g := fun tcb => { tcb with actcnt := tcb.actcnt - 1 }) rfl rfl
  refine .ok ⟨dispatch (setRuntsk (.ite ?_ (fun _ => (h₂.makeContext t).makeReady t)
    fun _ => h₁) _), rfl⟩
  rw [h₁.core]

/-- The running task starts to wait for no object. -/
theorem sleep (h : Twin m s w) (t : TskIx cfg) (tmout : TMO) :
    Twin m (Ittrium.dispatch ((Ittrium.makeWait t tmout s).setLinks (kqueueInit (.qnode t))))
      (Ittrium.dispatch ((Ittrium.makeWait t tmout w).setLinks (kqueueInit (.qnode t)))) :=
  ((h.makeWait t tmout).setLinks (inside_kqueueInit id)).dispatch

theorem dlyTsk {dlytim : RELTIM} (h : Twin m s w) :
    TwinCall m (dlyTsk dlytim s) (dlyTsk dlytim w) := by
  unfold Ittrium.dlyTsk
  refine .bindEq h.runTcb fun t _ => .ok ⟨sleep ?_ t _, rfl⟩
  exact h.setTcb rfl rfl

theorem susTsk {tskid : Int} (h : Twin m s w) :
    TwinCall m (susTsk tskid s) (susTsk tskid w) := by
  unfold Ittrium.susTsk
  rw [h.badTskid, h.getTcbSelf]
  refine .ite Iff.rfl (fun _ => h.ret) fun _ => .bindSame fun t _ => ?_
  rw [h.core]
  refine .ite Iff.rfl (fun _ => h.dispatch.ret) fun _ => ?_
  refine .ite Iff.rfl (fun _ => h.dispatch.ret) fun _ => ?_
  refine .ite Iff.rfl (fun _ => h.dispatch.ret) fun _ => ?_
  have h₁ := h.setTcb (t := t) (g := fun tcb => { tcb with suscnt := tcb.suscnt + 1 }) rfl rfl
  have h₂ := h₁.setTcb (t := t) (g := fun tcb => { tcb with state := .sus }) rfl rfl
  refine .ok ⟨dispatch (.ite (by rw [h₁.core]) (fun _ => h₂.makeUnready t) fun _ => ?_), rfl⟩
  exact h₁.setTcb rfl rfl

theorem rsmTsk {tskid : Int} (h : Twin m s w) :
    TwinCall m (rsmTsk tskid s) (rsmTsk tskid w) := by
  unfold Ittrium.rsmTsk
  rw [h.badTskid, h.getTcbSelf]
  refine .ite Iff.rfl (fun _ => h.ret) fun _ => .bindSame fun t _ => ?_
  rw [h.core]
  refine .ite Iff.rfl (fun _ => h.dispatch.ret) fun _ => ?_
  refine .ite Iff.rfl (fun _ => h.dispatch.ret) fun _ => ?_
  have h₁ := h.setTcb (t := t) (g := fun tcb => { tcb with suscnt := tcb.suscnt - 1 }) rfl rfl
  refine .ok ⟨dispatch (.ite (by rw [h₁.core]) (fun _ => ?_) fun _ => h₁), rfl⟩
  exact .ite (by rw [h₁.core]) (fun _ => h₁.setTcb rfl rfl) fun _ => h₁.makeReady t

theorem _slpTsk {tmout : TMO} (h : Twin m s w) :
    TwinCall m (_slpTsk tmout s) (_slpTsk tmout w) := by
  unfold Ittrium._slpTsk
  refine .bindEq h.runTcb fun t _ => ?_
  have h₁ := h.setTcb (t := t) (g := fun tcb => { tcb with ercd := .tmout }) rfl rfl
  refine .ite (by rw [h.core]) (fun _ => .ok ⟨dispatch (h.setTcb rfl rfl), rfl⟩) fun _ => ?_
  refine .ite Iff.rfl (fun _ => .ok ⟨sleep ?_ t tmout, rfl⟩) fun _ => h₁.dispatch.ret
  exact h₁.setTcb rfl rfl

theorem _wupTsk {tskid : Int} (h : Twin m s w) :
    TwinCall m (_wupTsk tskid s) (_wupTsk tskid w) := by
  unfold Ittrium._wupTsk
  rw [h.badTskid, h.getTcbSelf]
  refine .ite Iff.rfl (fun _ => h.ret) fun _ => .bindSame fun t _ => ?_
  rw [h.core]
  refine .ite Iff.rfl (fun _ => h.ret) fun _ => .ite Iff.rfl (fun _ => h.ret) fun _ => ?_
  refine .ite Iff.rfl (fun _ => (h.waitReleaseOk t).ret) fun _ => ?_
  exact .ite Iff.rfl (fun _ => h.ret) fun _ => .ok ⟨h.setTcb rfl rfl, rfl⟩

theorem canWup {tskid : Int} (h : Twin m s w) :
    TwinCall m (canWup tskid s) (canWup tskid w) := by
  unfold Ittrium.canWup
  rw [h.badTskid, h.getTcbSelf]
  refine .ite Iff.rfl (fun _ => h.ret) fun _ => .bindSame fun t _ => ?_
  rw [h.core]
  refine .ite Iff.rfl (fun _ => h.ret) fun _ => .ite Iff.rfl (fun _ => h.ret) fun _ => ?_
  exact .ok ⟨h.setTcb rfl rfl, rfl⟩

/-! ## Calls about objects -/

theorem _creSem {semid : Int} {pk : TCsem} (h : Twin m s w) :
    TwinCall m (_creSem semid pk s) (_creSem semid pk w) := by
  unfold Ittrium._creSem
  refine .ite Iff.rfl (fun _ => h.ret) fun _ => .ite Iff.rfl (fun _ => h.ret) fun _ => ?_
  refine .bindSame fun i _ => .ite (by rw [h.core]) (fun _ => h.ret) fun _ => .ok ⟨?_, rfl⟩
  exact ((h.setLinks (inside_kqueueRemove id)).setLinks (inside_kqueueInit id)).setCore_same rfl

theorem acreSemLoop {pk : TCsem} (h : Twin m s w) : ∀ (n : Nat) (i : Int),
    TwinCall m (acreSemLoop pk s n i) (acreSemLoop pk w n i)
  | 0, _ => h.ret
  | n + 1, i => by
    unfold Ittrium.acreSemLoop
    refine .bindSame fun k _ => .ite (by rw [h.core]) (fun _ => ?_) fun _ => h.acreSemLoop n (i + 1)
    exact h._creSem.bind fun v w hvw => .ok ⟨hvw.1, by rw [hvw.2]⟩

theorem _waiSem {semid : Int} {tmout : TMO} (h : Twin m s w) :
    TwinCall m (_waiSem semid tmout s) (_waiSem semid tmout w) := by
  unfold Ittrium._waiSem
  refine .ite Iff.rfl (fun _ => h.ret) fun _ => .bindSame fun i _ => ?_
  refine .ite (by rw [h.core]) (fun _ => h.ret) fun _ => .bindEq h.runTcb fun t _ => ?_
  have h₁ := h.setTcb (t := t) (g := fun tcb => { tcb with ercd := .tmout }) rfl rfl
  refine .ite (by rw [h.core]) (fun _ => .ok ⟨dispatch (setTcb (h.setCore_same rfl) rfl rfl), rfl⟩)
    fun _ => .ite Iff.rfl (fun _ => ?_) fun _ => h₁.dispatch.ret
  exact (h₁.objMakeWait t _ tmout).bind fun _ _ h₂ => h₂.dispatch.ret

theorem _sigSem {semid : Int} (h : Twin m s w) :
    TwinCall m (_sigSem semid s) (_sigSem semid w) := by
  unfold Ittrium._sigSem
  refine .ite Iff.rfl (fun _ => h.ret) fun _ => .bindSame fun i _ => ?_
  have hx : ¬ Outside (.waitq (.sem i) : Node cfg) := id
  rw [h.core, h.empty hx, h.next hx]
  refine .ite Iff.rfl (fun _ => h.ret) fun _ => .ite Iff.rfl (fun _ => ?_) fun _ => ?_
  · exact .bindSame fun t _ => (h.waitReleaseOk t).ret
  · exact .ite Iff.rfl (fun _ => h.ret) fun _ => .ok ⟨h.setCore_same rfl, rfl⟩

theorem delSem {semid : Int} (h : Twin m s w) :
    TwinCall m (delSem semid s) (delSem semid w) := by
  unfold Ittrium.delSem waitDelete
  refine .ite Iff.rfl (fun _ => h.ret) fun _ => .bindSame fun i _ => ?_
  refine .ite (by rw [h.core]) (fun _ => h.ret) fun _ => (waitDeleteLoop id _ h).bind ?_
  intro s₁ w₁ h₁
  exact .ok ⟨dispatch (setLinks (h₁.setCore_same rfl) (inside_kqueueInsert id id)), rfl⟩

theorem refSem {semid : Int} (h : Twin m s w) :
    TwinCall m (refSem semid s) (refSem semid w) := by
  unfold Ittrium.refSem
  refine .ite Iff.rfl (fun _ => h.ret) fun _ => .bindSame fun i _ => ?_
  have hw : Ittrium.waitTskid (.waitq (.sem i)) w = Ittrium.waitTskid (.waitq (.sem i)) s :=
    h.waitTskid id
  rw [h.core, hw]
  exact .ite Iff.rfl (fun _ => h.ret) fun _ => .bindSame fun _ _ => h.ret

theorem _creFlg {flgid : Int} {pk : TCflg} (h : Twin m s w) :
    TwinCall m (_creFlg flgid pk s) (_creFlg flgid pk w) := by
  unfold Ittrium._creFlg
  refine .ite Iff.rfl (fun _ => h.ret) fun _ => .bindSame fun i _ => ?_
  refine .ite (by rw [h.core]) (fun _ => h.ret) fun _ => .ok ⟨?_, rfl⟩
  exact (h.setLinks (inside_kqueueInit id)).setCore_same rfl

theorem acreFlgLoop {pk : TCflg} (h : Twin m s w) : ∀ (n : Nat) (i : Int),
    TwinCall m (acreFlgLoop pk s n i) (acreFlgLoop pk w n i)
  | 0, _ => h.ret
  | n + 1, i => by
    unfold Ittrium.acreFlgLoop
    refine .bindSame fun k _ => .ite (by rw [h.core]) (fun _ => ?_) fun _ => h.acreFlgLoop n (i + 1)
    exact h._creFlg.bind fun v w hvw => .ok ⟨hvw.1, by rw [hvw.2]⟩

theorem _setFlg {flgid : Int} {setptn : FLGPTN} (h : Twin m s w) :
    TwinCall m (_setFlg flgid setptn s) (_setFlg flgid setptn w) := by
  unfold Ittrium._setFlg
  refine .ite Iff.rfl (fun _ => h.ret) fun _ => .bindSame fun i _ => ?_
  refine .ite (by rw [h.core]) (fun _ => h.ret) fun _ => ?_
  have h₁ := h.setCore_same
    (f := Core.setFlgcb i fun cb => { cb with flgptn := cb.flgptn ||| setptn }) rfl
  have hnext := h₁.next (x := .waitq (.flg i)) id
  dsimp only
  rw [hnext]
  exact (setFlgLoop i _ _ h₁).bind fun _ _ h₂ => h₂.ret

theorem clrFlg {flgid : Int} {clrptn : FLGPTN} (h : Twin m s w) :
    TwinCall m (clrFlg flgid clrptn s) (clrFlg flgid clrptn w) := by
  unfold Ittrium.clrFlg
  refine .ite Iff.rfl (fun _ => h.ret) fun _ => .bindSame fun i _ => ?_
  exact .ite (by rw [h.core]) (fun _ => h.ret) fun _ => .ok ⟨h.setCore_same rfl, rfl⟩

theorem _waiFlg {flgid : Int} {waiptn : FLGPTN} {wfmode : MODE} {p : VP} {tmout : TMO}
    (h : Twin m s w) :
    TwinCall m (_waiFlg flgid waiptn wfmode p tmout s) (_waiFlg flgid waiptn wfmode p tmout w) := by
  unfold Ittrium._waiFlg
  refine .ite Iff.rfl (fun _ => h.ret) fun _ => .ite Iff.rfl (fun _ => h.ret) fun _ => ?_
  refine .bindSame fun i _ => .bindEq h.runTcb fun t _ => ?_
  have hx : ¬ Outside (.waitq (.flg i) : Node cfg) := id
  have hercd : ∀ e, Twin m (s.setTcb t fun tcb => { tcb with ercd := e })
      (w.setTcb t fun tcb => { tcb with ercd := e }) := fun e => h.setTcb rfl rfl
  refine .ite (by rw [h.core]) (fun _ => (hercd _).ret) fun _ => ?_
  refine .ite (by rw [h.core, h.empty hx]) (fun _ => (hercd _).ret) fun _ => ?_
  refine .ite (by rw [h.core]) (fun _ => .ok ⟨?_, rfl⟩) fun _ => ?_
  · exact setCore_same ((hercd _).setCore_same rfl) rfl
  · refine .ite Iff.rfl (fun _ => ?_) fun _ => (hercd _).ret
    exact (objMakeWait ((hercd _).setTcb rfl rfl) t _ tmout).bind fun _ _ h₂ => h₂.dispatch.ret

theorem refFlg {flgid : Int} (h : Twin m s w) :
    TwinCall m (refFlg flgid s) (refFlg flgid w) := by
  unfold Ittrium.refFlg
  refine .ite Iff.rfl (fun _ => h.ret) fun _ => .bindSame fun i _ => ?_
  have hw : Ittrium.waitTskid (.waitq (.flg i)) w = Ittrium.waitTskid (.waitq (.flg i)) s :=
    h.waitTskid id
  rw [h.core, hw]
  exact .ite Iff.rfl (fun _ => h.ret) fun _ => .bindSame fun _ _ => h.ret

theorem delFlg {flgid : Int} (h : Twin m s w) :
    TwinCall m (delFlg flgid s) (delFlg flgid w) := by
  unfold Ittrium.delFlg waitDelete
  refine .ite Iff.rfl (fun _ => h.ret) fun _ => .bindSame fun i _ => ?_
  refine .ite (by rw [h.core]) (fun _ => h.ret) fun _ => (waitDeleteLoop id _ h).bind ?_
  intro s₁ w₁ h₁
  exact .ok ⟨dispatch (h₁.setCore_same rfl), rfl⟩

theorem _creMbx {mbxid : Int} {pk : TCmbx} (h : Twin m s w) :
    TwinCall m (_creMbx mbxid pk s) (_creMbx mbxid pk w) := by
  unfold Ittrium._creMbx
  refine .ite Iff.rfl (fun _ => h.ret) fun _ => .bindSame fun i _ => ?_
  refine .ite (by rw [h.core]) (fun _ => h.ret) fun _ => .ok ⟨?_, rfl⟩
  exact setCore_same ((h.setLinks (inside_kqueueInit id)).setCore_same rfl) rfl

theorem acreMbxLoop {pk : TCmbx} (h : Twin m s w) : ∀ (n : Nat) (i : Int),
    TwinCall m (acreMbxLoop pk s n i) (acreMbxLoop pk w n i)
  | 0, _ => h.ret
  | n + 1, i => by
    unfold Ittrium.acreMbxLoop
    refine .bindSame fun k _ => .ite (by rw [h.core]) (fun _ => ?_) fun _ => h.acreMbxLoop n (i + 1)
    exact h._creMbx.bind fun v w hvw => .ok ⟨hvw.1, by rw [hvw.2]⟩

theorem _sndMbx {mbxid : Int} {msg : Fin cfg.nmsg} (h : Twin m s w) :
    TwinCall m (_sndMbx mbxid msg s) (_sndMbx mbxid msg w) := by
  unfold Ittrium._sndMbx
  refine .ite Iff.rfl (fun _ => h.ret) fun _ => .bindSame fun i _ => ?_
  have hx : ¬ Outside (.waitq (.mbx i) : Node cfg) := id
  refine .ite (by rw [h.core]) (fun _ => h.ret) fun _ => ?_
  refine .ite (by rw [h.core]) (fun _ => h.ret) fun _ => ?_
  rw [h.empty hx, h.next hx]
  refine .ite Iff.rfl (fun _ => .bindSame fun t _ => ?_) fun _ => ?_
  · exact .ok ⟨waitReleaseOk (h.setCore_same rfl) t, rfl⟩
  · refine .bindEq (by rw [h.core]) fun c hc => .ok ⟨?_, rfl⟩
    exact h.setCore_same (f := fun _ => c) (enqueueMsg_same msg i s.core c hc).tcb

theorem _rcvMbx {mbxid : Int} {p : VP} {tmout : TMO} (h : Twin m s w) :
    TwinCall m (_rcvMbx mbxid p tmout s) (_rcvMbx mbxid p tmout w) := by
  unfold Ittrium._rcvMbx
  refine .ite Iff.rfl (fun _ => h.ret) fun _ => .ite Iff.rfl (fun _ => h.ret) fun _ => ?_
  refine .bindSame fun i _ => .bindEq h.runTcb fun t _ => ?_
  have hercd : ∀ e, Twin m (s.setTcb t fun tcb => { tcb with ercd := e })
      (w.setTcb t fun tcb => { tcb with ercd := e }) := fun e => h.setTcb rfl rfl
  refine .ite (by rw [h.core]) (fun _ => (hercd _).ret) fun _ => ?_
  refine .ite (by rw [h.core]) (fun _ => .ok ⟨(hercd _).setCore_same rfl, rfl⟩) fun _ => ?_
  refine .ite Iff.rfl (fun _ => ?_) fun _ => (hercd _).ret
  exact (objMakeWait ((hercd _).setTcb rfl rfl) t _ tmout).bind fun _ _ h₂ => h₂.dispatch.ret

theorem refMbx {mbxid : Int} (h : Twin m s w) :
    TwinCall m (refMbx mbxid s) (refMbx mbxid w) := by
  unfold Ittrium.refMbx
  refine .ite Iff.rfl (fun _ => h.ret) fun _ => .bindSame fun i _ => ?_
  have hw : Ittrium.waitTskid (.waitq (.mbx i)) w = Ittrium.waitTskid (.waitq (.mbx i)) s :=
    h.waitTskid id
  rw [h.core, hw]
  exact .ite Iff.rfl (fun _ => h.ret) fun _ => .bindSame fun _ _ => h.ret

theorem delMbx {mbxid : Int} (h : Twin m s w) :
    TwinCall m (delMbx mbxid s) (delMbx mbxid w) := by
  unfold Ittrium.delMbx waitDelete
  refine .ite Iff.rfl (fun _ => h.ret) fun _ => .bindSame fun i _ => ?_
  refine .ite (by rw [h.core]) (fun _ => h.ret) fun _ => (waitDeleteLoop id _ h).bind ?_
  intro s₁ w₁ h₁
  exact .ok ⟨dispatch (setCore_same (h₁.setCore_same rfl) rfl), rfl⟩

end Twin

/-! ## All calls -/

theorem exec_twin (h : Twin m s w) (hc : GoodIndex s c) : TwinCall m (exec c s) (exec c w) := by
  cases c with
  | creTsk tskid pk =>
    exact h.creTsk fun hcr => linePri_priToIndex (hc hcr).1 (hc hcr).2
  | acreTsk pk =>
    exact h.acreTskLoop _ _ fun hcr => linePri_priToIndex (hc hcr).1 (hc hcr).2
  | delTsk tskid => exact h.delTsk
  | actTsk tskid => exact h._actTsk.dispatchIfOk
  | iactTsk tskid => exact h._actTsk
  | chgPri tskid tskpri => exact h.chgPri
  | rotRdq tskpri => exact h.rotRdq hc
  | extTsk => exact h.extTsk
  | dlyTsk dlytim => exact h.dlyTsk
  | susTsk tskid => exact h.susTsk
  | rsmTsk tskid => exact h.rsmTsk
  | slpTsk => exact h._slpTsk
  | tslpTsk tmout => exact h._slpTsk
  | wupTsk tskid => exact h._wupTsk.dispatchIfOk
  | iwupTsk tskid => exact h._wupTsk
  | canWup tskid => exact h.canWup
  | creSem semid pk => exact .ite Iff.rfl (fun _ => h.ret) fun _ => h._creSem
  | acreSem pk => exact h.acreSemLoop _ _
  | waiSem semid => exact h._waiSem
  | twaiSem semid tmout => exact h._waiSem
  | polSem semid => exact h._waiSem
  | sigSem semid => exact h._sigSem.dispatchAll
  | isigSem semid => exact h._sigSem
  | delSem semid => exact h.delSem
  | refSem semid => exact h.refSem
  | creFlg flgid pk => exact .ite Iff.rfl (fun _ => h.ret) fun _ => h._creFlg
  | acreFlg pk => exact h.acreFlgLoop _ _
  | setFlg flgid setptn => exact h._setFlg.dispatchAll
  | isetFlg flgid setptn => exact h._setFlg
  | clrFlg flgid clrptn => exact h.clrFlg
  | waiFlg flgid waiptn wfmode p => exact h._waiFlg
  | twaiFlg flgid waiptn wfmode p tmout => exact h._waiFlg
  | polFlg flgid waiptn wfmode p => exact h._waiFlg
  | refFlg flgid => exact h.refFlg
  | delFlg flgid => exact h.delFlg
  | creMbx mbxid pk => exact .ite Iff.rfl (fun _ => h.ret) fun _ => h._creMbx
  | acreMbx pk => exact h.acreMbxLoop _ _
  | sndMbx mbxid msg => exact h._sndMbx.dispatchAll
  | rcvMbx mbxid p => exact h._rcvMbx
  | trcvMbx mbxid p tmout => exact h._rcvMbx
  | prcvMbx mbxid p => exact h._rcvMbx
  | refMbx mbxid => exact h.refMbx
  | delMbx mbxid => exact h.delMbx
  | timerHandler => exact h.timerHandler.bind fun _ _ h' => h'.ret
  | dispatch => exact h.dispatch.ret
  | setMsgpri msg pri =>
    exact (h.setCore_same
      (f := fun c => { c with msgpri := Function.update c.msgpri msg pri }) rfl).ret

theorem InRange.step (h : InRange s) (hc : GoodIndex s c) (he : exec c s = .ok (s', r)) :
    InRange s' := by
  have hsame := exec_twin (m := s) ⟨h, rfl⟩ hc
  rw [he] at hsame
  obtain ⟨_, -, ht, -⟩ := hsame.of_ok
  exact ht.1

theorem InRange.inBounds (h : InRange s) (hc : GoodIndex s c) : InBounds s c := by
  intro m
  have hsame := exec_twin (m := m) ⟨h, rfl⟩ hc
  cases hx : exec c s with
  | error e =>
    rw [hx] at hsame
    exact hsame.of_error
  | ok v =>
    rw [hx] at hsame
    obtain ⟨u, hu, ht, hr⟩ := hsame.of_ok
    rw [hu]
    exact congrArg Except.ok (Prod.ext ht.2 hr.symm)

/-! ## Runs -/

/-- What C promises of static storage: the control blocks and links hold zeros. -/
structure Cleared (m : Kernel cfg) : Prop where
  tskpri : ∀ t, (m.core.tcb t).tskpri = 0
  itskpri : ∀ t, (m.core.tcb t).itskpri = 0
  next : ∀ x, m.links.next x = .null
  prev : ∀ x, m.links.prev x = .null

/-- Where `main` is after the initializations, if static storage has been cleared. -/
def Reset (s : Kernel cfg) : Prop := ∃ m, Cleared m ∧ s = boot m

/-- A loop over nodes of the arrays. -/
theorem InsideLinks.foldl {f : Node cfg → Links (Node cfg) → Links (Node cfg)}
    {h : Links (Node cfg)} (hh : InsideLinks h) : ∀ (xs : List (Node cfg)),
      (∀ x ∈ xs, Inside (f x)) → InsideLinks (xs.foldl (fun h x => f x h) h) := by
  intro xs hf
  induction xs generalizing h with
  | nil => exact hh
  | cons x xs ih => exact ih ((hf x (by simp)) h hh).1 fun y hy => hf y (by simp [hy])

/-- The priorities are not initialized. -/
theorem boot_pri (m : Kernel cfg) (t : TskIx cfg) :
    ((boot m).core.tcb t).tskpri = (m.core.tcb t).tskpri ∧
      ((boot m).core.tcb t).itskpri = (m.core.tcb t).itskpri := by
  unfold boot
  rw [(mailboxInitialize_keep _).1, (semaphoreInitialize_keep _).1, (eventflagInitialize_keep _).1]
  show ((taskInitialize m).core.tcb t).tskpri = _ ∧ ((taskInitialize m).core.tcb t).itskpri = _
  rw [← Prod.mk.injEq]
  unfold taskInitialize Kernel.setTcb
  simp only [foldl_setCore_setLinks]
  refine foldl_keep (fun c : Core cfg => ((c.tcb t).tskpri, (c.tcb t).itskpri)) (fun c i => ?_) _ _
  by_cases ht : t = i
  · subst ht
    rw [Core.setTcb_self]
  · rw [Core.setTcb_of_ne ht]

theorem Cleared.insideLinks (h : Cleared m) : InsideLinks (boot m).links := by
  have h₀ : InsideLinks m.links := fun x _ => by
    rw [h.next, h.prev]
    exact ⟨id, id⟩
  -- one step for each loop, in their order
  have h₁ := h₀.foldl (f := kqueueInit)
    ((List.range cfg.tmaxTpri).map fun (i : Nat) => Node.priq i) (by
      intro x hx
      obtain ⟨i, hi, rfl⟩ := List.mem_map.mp hx
      have := List.mem_range.mp hi
      exact inside_kqueueInit (not_outside_priq ⟨by omega, by omega⟩))
  have h₂ := InsideLinks.foldl (f := fun x => kqueueInsert x .freeTcb)
    (inside_kqueueInit (x := .freeTcb) id _ h₁).1
    ((List.finRange cfg.tnumTskid).map Node.qnode) (by
      intro x hx
      obtain ⟨t, -, rfl⟩ := List.mem_map.mp hx
      exact inside_kqueueInsert id id)
  have h₃ := (inside_kqueueInit (x := .timerQueue) id _ h₂).1
  have h₄ := h₃.foldl (f := kqueueInit)
    ((List.finRange cfg.tnumFlgid).map fun i => Node.waitq (.flg i)) (by
      intro x hx
      obtain ⟨i, -, rfl⟩ := List.mem_map.mp hx
      exact inside_kqueueInit id)
  have h₅ := InsideLinks.foldl (f := fun x => kqueueInsert x .freeSemcb)
    (inside_kqueueInit (x := .freeSemcb) id _ h₄).1
    ((List.finRange cfg.tnumSemid).map fun i => Node.waitq (.sem i)) (by
      intro x hx
      obtain ⟨i, -, rfl⟩ := List.mem_map.mp hx
      exact inside_kqueueInsert id id)
  rw [boot_links]
  exact h₅.foldl (f := kqueueInit)
    ((List.finRange cfg.tnumMbxid).map fun i => Node.waitq (.mbx i)) (by
      intro x hx
      obtain ⟨i, -, rfl⟩ := List.mem_map.mp hx
      exact inside_kqueueInit id)

theorem Cleared.inRange (h : Cleared m) : InRange (boot m) := by
  have hr := boot_refines m
  have hpri : LinePri cfg 0 := ⟨le_refl 0, by have := cfg.tpri_pos; omega⟩
  refine ⟨fun t => ?_, fun t => ?_, ?_, fun i hi k hk hb => ?_, h.insideLinks⟩
  · rw [(boot_pri m t).1, h.tskpri]
    exact hpri
  · rw [(boot_pri m t).2, h.itskpri]
    exact hpri
  · rw [hr.rdyq.top]
    exact ⟨topPri_nonneg _, topPri_le _⟩
  · exact hr.onLines _ ((hr.rdyq.bitmap i hi k hk).mp hb).2

/-- All that is used as an index is one, in every state reached. -/
theorem inRange_of_run {tr : Trace cfg} (h : Run Reset (StepOf GoodIndex) tr s) : InRange s := by
  refine h.invariant (I := InRange) ?_ ?_
  · rintro _ ⟨m, hm, rfl⟩
    exact hm.inRange
  · rintro s ⟨c, r⟩ s' hs ⟨hc, he⟩
    exact hs.step hc he

/-- **If every task that is created has a valid priority, and `rot_rdq(TPRI_INI)` finds a line to
rotate, every call stays inside `priq` and `bitmap`.** -/
theorem accesses_inBounds {tr : Trace cfg} (h : Run Reset (StepOf GoodIndex) tr s)
    (hc : GoodIndex s c) : InBounds s c :=
  (inRange_of_run h).inBounds hc

/-- In sound runs there is a line to rotate whenever there is something to run. -/
theorem RunOf.goodIndex {tr : Trace cfg} (h : RunOf SoundCall tr s) (hc : SoundCall s c) :
    GoodIndex s c := by
  cases c with
  | creTsk tskid pk => exact fun _ => hc
  | acreTsk pk => exact fun _ => hc
  | rotRdq tskpri =>
    intro _ hs htop
    obtain ⟨a, hm⟩ := h.models fun _ _ h => h
    refine hs ?_
    rw [hm.refines.schedtsk]
    rw [hm.refines.rdyq.top] at htop
    unfold Model.top topOf
    rw [if_pos htop]
    rfl
  | _ => trivial

/-- With valid priorities, `rot_rdq(TPRI_INI)` fails to find one only after another task than a
ready one has changed its priority, or a suspended one has been suspended again. -/
theorem sound_inBounds {tr : Trace cfg} (h : Run Reset (StepOf SoundCall) tr s)
    (hc : SoundCall s c) : InBounds s c := by
  have hrun : ∀ {tr : Trace cfg} {s : Kernel cfg}, Run Reset (StepOf SoundCall) tr s →
      RunOf SoundCall tr s := by
    intro tr s h
    refine h.mono ?_ fun _ _ _ h => h
    rintro _ ⟨m, -, rfl⟩
    exact ⟨m, rfl⟩
  have hgood : Run Reset (StepOf GoodIndex) tr s := by
    clear hc
    induction h with
    | start hi => exact .start hi
    | step h hs ih => exact ih.step ⟨RunOf.goodIndex (hrun h) hs.1, hs.2⟩
  exact (inRange_of_run hgood).inBounds (RunOf.goodIndex (hrun h) hc)

/-- `chg_pri` of a task that waits and is suspended, and the end of its wait, leave no bit set. -/
example : ((runCalls (fun _ _ => True)
    (startTasks [2, 2] ++ [.tslpTsk 2, .susTsk 1, .chgPri 1 2, .rotRdq 2, .timerHandler,
      .timerHandler, .susTsk 2]) [] (boot zeroed)).any fun v =>
    decide (v.2.schedtsk ≠ .null) && decide (v.2.rdyq.topPriority = (smallConfig.tmaxTpri : Int))) = true := by
  decide +kernel

/-! ## A task of the small build -/

theorem zeroed_cleared : Cleared zeroed := ⟨fun _ => rfl, fun _ => rfl, fun _ => rfl, fun _ => rfl⟩

/-- Task 1 has been created with the given priority. -/
def creTsk1 (pri : Int) (s : Kernel smallConfig) : Event (Kernel smallConfig) (Label smallConfig) :=
  ⟨boot zeroed, (.creTsk 1 (taskPk pri), .er .ok), s⟩

theorem eq_ok_of_toOption {x : Outcome cfg} {v : Kernel cfg × Ret cfg}
    (h : x.toOption = some v) : x = .ok v := by
  cases x with
  | error e => cases h
  | ok w => exact congrArg Except.ok (Option.some.inj h)

/-- It has priority 2, and is started inside the arrays. -/
theorem accesses_inBounds_act : ∃ s : Kernel smallConfig,
    Run Reset (StepOf GoodIndex) [creTsk1 2 s] s ∧ InBounds s (.actTsk 1) := by
  have hx : (exec (.creTsk 1 (taskPk 2)) (boot zeroed)).toOption.map Prod.snd = some (.er .ok) := by
    decide +kernel
  obtain ⟨⟨s, r⟩, hv, rfl⟩ := Option.map_eq_some_iff.mp hx
  have he := eq_ok_of_toOption hv
  have h : Run Reset (StepOf GoodIndex) [creTsk1 2 s] s :=
    .step (.start ⟨zeroed, zeroed_cleared, rfl⟩) ⟨fun _ => ⟨by decide, by decide⟩, he⟩
  exact ⟨s, h, accesses_inBounds h trivial⟩

/-- The node behind the array that a task of priority 200 is linked to. -/
def strayPrev (s : Kernel smallConfig) : Option (Node smallConfig) :=
  (exec (.actTsk 1) (withOutside zeroed s)).toOption.map fun v => v.1.links.prev (.priq 199)

/-- It has priority 200. Starting it writes to `priq[199]`. -/
theorem act_tsk_outside : ∃ s : Kernel smallConfig,
    Run Reset (StepOf fun _ _ => True) [creTsk1 200 s] s ∧ ¬ InBounds s (.actTsk 1) := by
  have hx : (exec (.creTsk 1 (taskPk 200)) (boot zeroed)).toOption.map
      (fun v => (strayPrev v.1, v.2)) = some (some (.qnode 0), .er .ok) := by
    decide +kernel
  obtain ⟨⟨s, r⟩, he, hv⟩ := Option.map_eq_some_iff.mp hx
  obtain ⟨hs, rfl⟩ := Prod.ext_iff.mp hv
  refine ⟨s, .step (.start ⟨zeroed, zeroed_cleared, rfl⟩) ⟨trivial, eq_ok_of_toOption he⟩,
    fun hin => ?_⟩
  have h199 : Outside (.priq 199 : Node smallConfig) := fun h => absurd h.2 (by decide)
  unfold strayPrev at hs
  rw [hin zeroed] at hs
  cases hv : exec (.actTsk 1) s with
  | error e =>
    rw [hv] at hs
    cases hs
  | ok v =>
    rw [hv] at hs
    cases (withOutside_prev h199).symm.trans (Option.some.inj hs)

end Ittrium
