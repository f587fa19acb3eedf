import Ittrium.Infra.Population
import Ittrium.Properties.ExitStack
import Ittrium.Properties.Ticks
import Ittrium.Vfs.Telemetry

/-!
# The counters of `telemetry.c`

Each tick counts in `telemetry_wall_ticks` and in one more counter, and all of them are 32 bits
wide. A task that is created again starts at zero.

* `Tallies` — what a call may do to the counters: none goes on, and those of tasks may be reset
* `timerHandler_counts` — **what a tick counts**
* `Bounded` — the ticks of the tasks and of the idle time are not more than those of the wall clock
* `Bounded.step` — that stays so as long as the wall clock does not wrap
-/

namespace Ittrium

open Infra

variable {cfg : Config} {s s' s'' : Kernel cfg} {t : TskIx cfg}

/-! ## Counters that stay -/

/-- The counter of a task, or that of the idle time. -/
def Core.ticks (c : Core cfg) : Option (TskIx cfg) → UW
  | some t => (c.tcb t).runTicks
  | none => c.telemetryIdleTicks

/-- The counters of `c'` are those of `c`, or a task's starts again. -/
structure Tallies (c c' : Core cfg) : Prop where
  wall : c'.telemetryWallTicks = c.telemetryWallTicks
  idle : c'.telemetryIdleTicks = c.telemetryIdleTicks
  run : ∀ t, (c'.tcb t).runTicks = (c.tcb t).runTicks ∨ (c'.tcb t).runTicks = 0

/-- No counter goes on from `s` to `s'`. -/
def Holding (s s' : Kernel cfg) : Prop := Tallies s.core s'.core

theorem Tallies.refl (c : Core cfg) : Tallies c c := ⟨rfl, rfl, fun _ => Or.inl rfl⟩

theorem Tallies.trans {c c' c'' : Core cfg} (h : Tallies c c') (h' : Tallies c' c'') :
    Tallies c c'' := by
  refine ⟨h'.wall.trans h.wall, h'.idle.trans h.idle, fun t => ?_⟩
  rcases h'.run t with he | h0
  · rw [he]
    exact h.run t
  · exact Or.inr h0

/-- Only one task's counter may have changed. -/
theorem Tallies.ticks_le {c c' : Core cfg} (h : Tallies c c') (x : Option (TskIx cfg)) :
    (c'.ticks x).toNat ≤ (c.ticks x).toNat := by
  cases x with
  | some t =>
    show (c'.tcb t).runTicks.toNat ≤ (c.tcb t).runTicks.toNat
    rcases h.run t with he | h0
    · rw [he]
    · rw [h0]
      exact Nat.zero_le _
  | none => exact (congrArg BitVec.toNat h.idle).le

theorem Tallies.setTcb (t : TskIx cfg) {f : TCB cfg → TCB cfg} (c : Core cfg)
    (hf : (f (c.tcb t)).runTicks = (c.tcb t).runTicks ∨ (f (c.tcb t)).runTicks = 0) :
    Tallies c (c.setTcb t f) := by
  refine ⟨rfl, rfl, fun u => ?_⟩
  by_cases hu : u = t
  · subst hu
    simpa only [Core.setTcb, Function.update_self] using hf
  · exact Or.inl (by simp only [Core.setTcb, Function.update_of_ne hu])

namespace Holding

theorem refl (s : Kernel cfg) : Holding s s := Tallies.refl s.core

theorem of_core (h : Holding s s') (hc : s''.core = s'.core) : Holding s s'' := by
  unfold Holding
  rw [hc]
  exact h

theorem setLinks (h : Holding s s') (f : Links (Node cfg) → Links (Node cfg)) :
    Holding s (s'.setLinks f) := h

theorem dispatched (h : Holding s s') : Holding s (dispatch s') := h

theorem setCore (h : Holding s s') {f : Core cfg → Core cfg} (hf : Tallies s'.core (f s'.core)) :
    Holding s (s'.setCore f) := h.trans hf

/-- An update of a task that leaves its counter alone. -/
theorem setTcb (h : Holding s s') (t : TskIx cfg) {f : TCB cfg → TCB cfg}
    (hf : (f (s'.core.tcb t)).runTicks = (s'.core.tcb t).runTicks) : Holding s (s'.setTcb t f) :=
  h.setCore (.setTcb t _ (Or.inl hf))

/-- An update of the other data. -/
theorem setRest (h : Holding s s') {f : Core cfg → Core cfg}
    (hf : (f s'.core).tcb = s'.core.tcb ∧
      (f s'.core).telemetryWallTicks = s'.core.telemetryWallTicks ∧
      (f s'.core).telemetryIdleTicks = s'.core.telemetryIdleTicks) :
    Holding s (s'.setCore f) :=
  h.setCore ⟨hf.2.1, hf.2.2, fun t => Or.inl (by rw [hf.1])⟩

/-! ### Tasks -/

theorem makeReady (h : Holding s s') (t : TskIx cfg) : Holding s (taskMakeReady t s') := by
  unfold Holding
  rw [taskMakeReady_core]
  exact Tallies.trans h (.setTcb t _ (Or.inl rfl))

theorem makeUnready (h : Holding s s') (t : TskIx cfg) : Holding s (taskMakeUnready t s') :=
  h.of_core taskMakeUnready_core

theorem changePri (h : Holding s s') (t : TskIx cfg) (p : Int) :
    Holding s (taskChangePri t p s') := by
  unfold taskChangePri rdyqInsert
  dsimp only
  have hset := (h.of_core (rdyqRemove_core (t := t))).setTcb t
    (f := fun tcb => { tcb with tskpri := p }) rfl
  split <;> exact hset.of_core rfl

theorem makeDormant (h : Holding s s') (t : TskIx cfg) :
    Holding s (s'.setCore (taskMakeDormant t)) := by
  refine h.setCore ?_
  unfold taskMakeDormant
  dsimp only
  have hset : Tallies s'.core (s'.core.setTcb t fun tcb =>
      { tcb with
        state := .dmt, tskpri := tcb.itskpri, wupcnt := 0, suscnt := 0, tskwait := .none }) :=
    .setTcb t _ (Or.inl rfl)
  split
  · exact ⟨hset.wall, hset.idle, hset.run⟩
  · exact hset

theorem makeContext (h : Holding s s') (t : TskIx cfg) :
    Holding s (s'.setCore (makeTaskContext t)) := by
  refine h.setCore ⟨rfl, rfl, fun u => Or.inl ?_⟩
  by_cases hu : u = t
  · subst hu
    obtain ⟨ctx, hctx⟩ := makeTaskContext_tcb_self u s'.core
    rw [hctx]
  · rw [makeTaskContext_tcb_of_ne hu]

/-! ### Waits -/

theorem leaveWait (h : Holding s s') (t : TskIx cfg) : Holding s (taskLeaveWait t s') := by
  have hset := h.setTcb t (f := fun tcb => { tcb with tskwait := .none }) rfl
  unfold taskLeaveWait
  dsimp only
  split
  · exact hset.makeReady t
  · exact hset.setTcb t rfl

theorem release (h : Holding s s') (t : TskIx cfg) : Holding s (waitRelease t s') :=
  (show Holding s ((timerDelete t s').setLinks (kqueueRemove (.qnode t))) from h).leaveWait t

theorem releaseOk (h : Holding s s') (t : TskIx cfg) : Holding s (waitReleaseOk t s') :=
  (h.setTcb t (f := fun tcb => { tcb with ercd := .ok }) rfl).release t

theorem releaseTmout (h : Holding s s') (t : TskIx cfg) : Holding s (waitReleaseTmout t s') :=
  (h.setLinks (kqueueRemove (.qnode t))).leaveWait t

theorem insertTimer (h : Holding s s') (t : TskIx cfg) (tmout : TMO) (cb : Option Callback)
    (arg : Node cfg) : Holding s (timerInsert t tmout cb arg s') := by
  have hset := h.setTcb t
    (f := fun tcb => { tcb with wtmeb := { tcb.wtmeb with callback := cb, arg := arg } }) rfl
  unfold timerInsert
  dsimp only
  split
  · exact hset.of_core rfl
  · exact (hset.setTcb t (f := fun tcb =>
      { tcb with wtmeb := { tcb.wtmeb with count := tmout.signExtend 32 } }) rfl).of_core rfl

theorem wait (h : Holding s s') (t : TskIx cfg) (tmout : TMO) :
    Holding s (makeWait t tmout s') := by
  unfold makeWait
  dsimp only
  refine insertTimer ?_ ..
  cases (s'.core.tcb t).state with
  | run | rdy => exact (h.makeUnready t).setTcb t rfl
  | sus => exact h.setTcb t rfl
  | _ => exact h

theorem waitOn (h : Holding s s') (t : TskIx cfg) (o : ObjId cfg) (tmout : TMO) :
    Ensures (objMakeWait t o tmout s') (Holding s) := by
  have hwait := (h.setTcb t (f := fun tcb => { tcb with waitObj := some o }) rfl).wait t tmout
  unfold objMakeWait
  refine .ite (fun _ => ?_) fun _ => .ok (hwait.of_core rfl)
  exact .bind' fun q _ => .ok (hwait.of_core rfl)

theorem deleteLoop (waitq : Node cfg) : ∀ (n : Nat) {s' : Kernel cfg}, Holding s s' →
    Ensures (waitDeleteLoop waitq n s') (Holding s)
  | 0, _, _ => .error
  | n + 1, s', h => by
    unfold waitDeleteLoop
    refine .ite (fun _ => .ok h) fun _ => .bind' fun t _ => ?_
    exact deleteLoop waitq n ((h.setTcb t rfl).release t)

theorem flagLoop (i : FlgIx cfg) : ∀ (n : Nat) (queue : Node cfg) {s' : Kernel cfg}, Holding s s' →
    Ensures (setFlgLoop i n queue s') (Holding s)
  | 0, _, _, _ => .error
  | n + 1, queue, s', h => by
    unfold setFlgLoop
    refine .ite (fun _ => .ok h) fun _ => .bind' fun t _ => ?_
    refine .ite (fun _ => ?_) fun _ => flagLoop i n _ h
    exact flagLoop i n _ (((h.setRest ⟨rfl, rfl, rfl⟩).releaseOk t).setRest ⟨rfl, rfl, rfl⟩)

end Holding

/-! ## Calls -/

/-- A call leaves the counters, however it ends. -/
abbrev Holds (s : Kernel cfg) (x : Outcome cfg) : Prop := Ensures x fun r => Holding s r.1

/-- A call that does nothing. -/
theorem holds_same (s : Kernel cfg) (r : Ret cfg) : Holds s (.ok (s, r)) := .ok (.refl s)

theorem holds_dispatch (s : Kernel cfg) (r : Ret cfg) : Holds s (.ok (dispatch s, r)) :=
  .ok (.refl s)

theorem Holds.dispatchIfOk {x : Outcome cfg} (h : Holds s x) : Holds s (dispatchIfOk x) := by
  refine .bind' fun r hr => .ok ?_
  dsimp only
  split
  · exact (h r hr).of_core rfl
  · exact h r hr

/-- What is called by a call with a dispatch behind it. -/
theorem Holds.dispatched {x : Outcome cfg} (h : Holds s x) :
    Holds s (do let (s, r) ← x; .ok (dispatch s, r)) :=
  .bind' fun r hr => .ok ((h r hr).of_core rfl)

theorem creTsk_holds (tskid : Int) (pk : TCtsk) (s : Kernel cfg) : Holds s (creTsk tskid pk s) := by
  unfold creTsk
  refine .ite (fun _ => holds_same s _) fun _ => .bind' fun t _ => ?_
  refine .ite (fun _ => holds_same s _) fun _ => .ite (fun _ => holds_same s _) fun _ => .ok ?_
  refine Holding.makeDormant ?_ t
  exact Holding.setCore ((Holding.refl s).of_core rfl) (.setTcb t _ (Or.inr rfl))

theorem acreTsk_holds (pk : TCtsk) (s : Kernel cfg) : Holds s (acreTsk pk s) := by
  unfold acreTsk
  generalize cfg.trsvTskid = n, (cfg.tmaxTskid : Int) + 1 = i
  induction n generalizing i with
  | zero => exact holds_same s _
  | succ n ih =>
    refine .bind' fun t _ => .ite (fun _ => ?_) fun _ => ih _
    exact .bind' fun r hr => .ok (creTsk_holds i pk s r hr)

theorem delTsk_holds (tskid : Int) (s : Kernel cfg) : Holds s (delTsk tskid s) := by
  unfold delTsk
  refine .ite (fun _ => holds_same s _) fun _ => .bind' fun t _ => ?_
  refine .ite (fun _ => holds_same s _) fun _ => .ite (fun _ => holds_same s _) fun _ => ?_
  have hcancel : Holding s (if (s.core.tcb t).state.waiting then waitCancel t s else s) := by
    split
    · exact (Holding.refl s).of_core rfl
    · exact .refl s
  generalize (if (s.core.tcb t).state.waiting then waitCancel t s else s) = s₁ at hcancel ⊢
  have hunready : Holding s (if (s₁.core.tcb t).state = .rdy ∨ (s₁.core.tcb t).state = .run then
      taskMakeUnready t s₁ else s₁) := by
    split
    · exact hcancel.makeUnready t
    · exact hcancel
  exact .ok (.dispatched (.setLinks (.setTcb hunready t rfl) _))

theorem _actTsk_holds (tskid : Int) (s : Kernel cfg) : Holds s (_actTsk tskid s) := by
  unfold _actTsk
  refine .ite (fun _ => holds_same s _) fun _ => .bind' fun t _ => ?_
  refine .ite (fun _ => holds_same s _) fun _ => .ite (fun _ => ?_) fun _ => ?_
  · exact .ite (fun _ => holds_same s _) fun _ => .ok ((Holding.refl s).setTcb t rfl)
  · exact .ok (((Holding.refl s).makeContext t).makeReady t)

theorem chgPri_holds (tskid tskpri : Int) (s : Kernel cfg) : Holds s (chgPri tskid tskpri s) := by
  unfold chgPri
  refine .ite (fun _ => holds_same s _) fun _ => .ite (fun _ => holds_same s _) fun _ => ?_
  refine .bind' fun t _ => .ite (fun _ => holds_same s _) fun _ => ?_
  refine .ite (fun _ => holds_same s _) fun _ => .ok ?_
  refine Holding.dispatched ?_
  split <;> exact (Holding.refl s).changePri t _

theorem rdyqRotate_core (p : Int) (s : Kernel cfg) : (rdyqRotate p s).core = s.core := by
  unfold rdyqRotate
  split <;> rfl

theorem reschedule_core (s : Kernel cfg) : (reschedule s).core = s.core := by
  unfold reschedule
  dsimp only
  split <;> rfl

theorem rotRdq_holds (tskpri : Int) (s : Kernel cfg) : Holds s (rotRdq tskpri s) := by
  have hrot : ∀ p, (reschedule (rdyqRotate p s)).core = s.core := fun p =>
    (reschedule_core _).trans (rdyqRotate_core p s)
  unfold rotRdq
  refine .ite (fun _ => .ok ?_) fun _ => .ite (fun _ => holds_same s _) fun _ => .ok ?_
  · refine (Holding.refl s).of_core (?_ : (rdyqRotateCurrent s).core = s.core)
    unfold rdyqRotateCurrent
    split
    · exact hrot _
    · rfl
  · exact (Holding.refl s).of_core (hrot _)

theorem extTsk_holds (s : Kernel cfg) : Holds s (extTsk s) := by
  unfold extTsk
  refine .bind' fun t _ => .ok ?_
  have hend := ((Holding.refl s).makeUnready t).makeDormant t
  refine Holding.dispatched ?_
  split
  · exact ((hend.setTcb t rfl).makeContext t).makeReady t
  · exact hend

theorem dlyTsk_holds (dlytim : RELTIM) (s : Kernel cfg) : Holds s (dlyTsk dlytim s) := by
  unfold dlyTsk
  exact .bind' fun t _ => .ok ((((Holding.refl s).setTcb t rfl).wait t _).of_core rfl)

theorem susTsk_holds (tskid : Int) (s : Kernel cfg) : Holds s (susTsk tskid s) := by
  unfold susTsk
  refine .ite (fun _ => holds_same s _) fun _ => .bind' fun t _ => ?_
  refine .ite (fun _ => holds_dispatch s _) fun _ => .ite (fun _ => holds_dispatch s _) fun _ => ?_
  refine .ite (fun _ => holds_dispatch s _) fun _ => .ok ?_
  have hcount := (Holding.refl s).setTcb t (f := fun tcb => { tcb with suscnt := tcb.suscnt + 1 })
    rfl
  dsimp only
  split
  · exact ((hcount.setTcb t (f := fun tcb => { tcb with state := .sus }) rfl).makeUnready t).of_core
      rfl
  · exact (hcount.setTcb t (f := fun tcb => { tcb with state := .was }) rfl).of_core rfl

theorem rsmTsk_holds (tskid : Int) (s : Kernel cfg) : Holds s (rsmTsk tskid s) := by
  unfold rsmTsk
  refine .ite (fun _ => holds_same s _) fun _ => .bind' fun t _ => ?_
  refine .ite (fun _ => holds_dispatch s _) fun _ => .ite (fun _ => holds_dispatch s _) fun _ => ?_
  have hcount := (Holding.refl s).setTcb t (f := fun tcb => { tcb with suscnt := tcb.suscnt - 1 })
    rfl
  refine .ok ?_
  dsimp only
  split
  · split
    · exact (hcount.setTcb t (f := fun tcb => { tcb with state := .wai }) rfl).of_core rfl
    · exact (hcount.makeReady t).of_core rfl
  · exact hcount.of_core rfl

theorem _slpTsk_holds (tmout : TMO) (s : Kernel cfg) : Holds s (_slpTsk tmout s) := by
  unfold _slpTsk
  refine .bind' fun t _ => .ite (fun _ => .ok (.dispatched (.setTcb (.refl s) t rfl))) fun _ => ?_
  have hset := (Holding.refl s).setTcb t (f := fun tcb => { tcb with ercd := .tmout }) rfl
  refine .ite (fun _ => .ok ?_) fun _ => .ok (hset.of_core rfl)
  exact ((hset.setTcb t rfl).wait t tmout).of_core rfl

theorem _wupTsk_holds (tskid : Int) (s : Kernel cfg) : Holds s (_wupTsk tskid s) := by
  unfold _wupTsk
  refine .ite (fun _ => holds_same s _) fun _ => .bind' fun t _ => ?_
  refine .ite (fun _ => holds_same s _) fun _ => .ite (fun _ => holds_same s _) fun _ => ?_
  refine .ite (fun _ => .ok ((Holding.refl s).releaseOk t)) fun _ => ?_
  exact .ite (fun _ => holds_same s _) fun _ => .ok ((Holding.refl s).setTcb t rfl)

theorem canWup_holds (tskid : Int) (s : Kernel cfg) : Holds s (canWup tskid s) := by
  unfold canWup
  refine .ite (fun _ => holds_same s _) fun _ => .bind' fun t _ => ?_
  refine .ite (fun _ => holds_same s _) fun _ => .ite (fun _ => holds_same s _) fun _ => ?_
  exact .ok ((Holding.refl s).setTcb t rfl)

/-! ### Semaphores -/

theorem _creSem_holds (semid : Int) (pk : TCsem) (s : Kernel cfg) :
    Holds s (_creSem semid pk s) := by
  unfold _creSem
  refine .ite (fun _ => holds_same s _) fun _ => .ite (fun _ => holds_same s _) fun _ => ?_
  refine .bind' fun i _ => .ite (fun _ => holds_same s _) fun _ => .ok ?_
  exact Holding.setRest (.setLinks (.setLinks (.refl s) _) _) ⟨rfl, rfl, rfl⟩

theorem acreSem_holds (pk : TCsem) (s : Kernel cfg) : Holds s (acreSem pk s) := by
  unfold acreSem
  generalize cfg.trsvSemid = n, (cfg.tmaxSemid : Int) + 1 = i
  induction n generalizing i with
  | zero => exact holds_same s _
  | succ n ih =>
    refine .bind' fun k _ => .ite (fun _ => ?_) fun _ => ih _
    exact .bind' fun r hr => .ok (_creSem_holds i pk s r hr)

theorem _waiSem_holds (semid : Int) (tmout : TMO) (s : Kernel cfg) :
    Holds s (_waiSem semid tmout s) := by
  unfold _waiSem
  refine .ite (fun _ => holds_same s _) fun _ => .bind' fun i _ => ?_
  refine .ite (fun _ => holds_same s _) fun _ => .bind' fun r _ => ?_
  refine .ite (fun _ => .ok ?_) fun _ => ?_
  · exact .dispatched (.setTcb (.setRest (.refl s) ⟨rfl, rfl, rfl⟩) r rfl)
  · have hset := (Holding.refl s).setTcb r (f := fun tcb => { tcb with ercd := .tmout }) rfl
    refine .ite (fun _ => ?_) fun _ => .ok (.dispatched hset)
    exact .bind' fun s' hs' => .ok (.dispatched (hset.waitOn r _ tmout s' hs'))

theorem _sigSem_holds (semid : Int) (s : Kernel cfg) : Holds s (_sigSem semid s) := by
  unfold _sigSem
  refine .ite (fun _ => holds_same s _) fun _ => .bind' fun i _ => ?_
  refine .ite (fun _ => holds_same s _) fun _ => .ite (fun _ => .bind' fun t _ => ?_) fun _ => ?_
  · exact .ok ((Holding.refl s).releaseOk t)
  · exact .ite (fun _ => holds_same s _) fun _ => .ok (.setRest (.refl s) ⟨rfl, rfl, rfl⟩)

theorem delSem_holds (semid : Int) (s : Kernel cfg) : Holds s (delSem semid s) := by
  unfold delSem
  refine .ite (fun _ => holds_same s _) fun _ => .bind' fun i _ => ?_
  refine .ite (fun _ => holds_same s _) fun _ => .bind' fun s₁ hs₁ => .ok ?_
  have hdel := Holding.deleteLoop _ _ (.refl s) s₁ hs₁
  exact .dispatched (.setLinks (.setRest hdel ⟨rfl, rfl, rfl⟩) _)

theorem refSem_holds (semid : Int) (s : Kernel cfg) : Holds s (refSem semid s) := by
  unfold refSem
  refine .ite (fun _ => holds_same s _) fun _ => .bind' fun i _ => ?_
  exact .ite (fun _ => holds_same s _) fun _ => .bind' fun _ _ => holds_same s _

/-! ### Eventflags -/

theorem _creFlg_holds (flgid : Int) (pk : TCflg) (s : Kernel cfg) :
    Holds s (_creFlg flgid pk s) := by
  unfold _creFlg
  refine .ite (fun _ => holds_same s _) fun _ => .bind' fun i _ => ?_
  refine .ite (fun _ => holds_same s _) fun _ => .ok ?_
  exact Holding.setRest (.setLinks (.refl s) _) ⟨rfl, rfl, rfl⟩

theorem acreFlg_holds (pk : TCflg) (s : Kernel cfg) : Holds s (acreFlg pk s) := by
  unfold acreFlg
  generalize cfg.trsvFlgid = n, (cfg.tmaxFlgid : Int) + 1 = i
  induction n generalizing i with
  | zero => exact holds_same s _
  | succ n ih =>
    refine .bind' fun k _ => .ite (fun _ => ?_) fun _ => ih _
    exact .bind' fun r hr => .ok (_creFlg_holds i pk s r hr)

theorem _setFlg_holds (flgid : Int) (setptn : FLGPTN) (s : Kernel cfg) :
    Holds s (_setFlg flgid setptn s) := by
  unfold _setFlg
  refine .ite (fun _ => holds_same s _) fun _ => .bind' fun i _ => ?_
  refine .ite (fun _ => holds_same s _) fun _ => .bind' fun s₁ hs₁ => .ok ?_
  exact Holding.flagLoop i _ _ (.setRest (.refl s) ⟨rfl, rfl, rfl⟩) s₁ hs₁

theorem clrFlg_holds (flgid : Int) (clrptn : FLGPTN) (s : Kernel cfg) :
    Holds s (clrFlg flgid clrptn s) := by
  unfold clrFlg
  refine .ite (fun _ => holds_same s _) fun _ => .bind' fun i _ => ?_
  exact .ite (fun _ => holds_same s _) fun _ => .ok (.setRest (.refl s) ⟨rfl, rfl, rfl⟩)

theorem _waiFlg_holds (flgid : Int) (waiptn : FLGPTN) (wfmode : MODE) (p : VP) (tmout : TMO)
    (s : Kernel cfg) : Holds s (_waiFlg flgid waiptn wfmode p tmout s) := by
  unfold _waiFlg
  refine .ite (fun _ => holds_same s _) fun _ => .ite (fun _ => holds_same s _) fun _ => ?_
  refine .bind' fun i _ => .bind' fun r _ => ?_
  refine .ite (fun _ => .ok (.setTcb (.refl s) r rfl)) fun _ => ?_
  refine .ite (fun _ => .ok (.setTcb (.refl s) r rfl)) fun _ => .ite (fun _ => .ok ?_) fun _ => ?_
  · exact .setRest (.setRest (.setTcb (.refl s) r rfl) ⟨rfl, rfl, rfl⟩) ⟨rfl, rfl, rfl⟩
  · have hset := (Holding.refl s).setTcb r (f := fun tcb => { tcb with ercd := .tmout }) rfl
    refine .ite (fun _ => ?_) fun _ => .ok hset
    exact .bind' fun s' hs' => .ok (.dispatched ((hset.setTcb r rfl).waitOn r _ tmout s' hs'))

theorem refFlg_holds (flgid : Int) (s : Kernel cfg) : Holds s (refFlg flgid s) := by
  unfold refFlg
  refine .ite (fun _ => holds_same s _) fun _ => .bind' fun i _ => ?_
  exact .ite (fun _ => holds_same s _) fun _ => .bind' fun _ _ => holds_same s _

theorem delFlg_holds (flgid : Int) (s : Kernel cfg) : Holds s (delFlg flgid s) := by
  unfold delFlg
  refine .ite (fun _ => holds_same s _) fun _ => .bind' fun i _ => ?_
  refine .ite (fun _ => holds_same s _) fun _ => .bind' fun s₁ hs₁ => .ok ?_
  exact .dispatched (.setRest (.deleteLoop _ _ (.refl s) s₁ hs₁) ⟨rfl, rfl, rfl⟩)

/-! ### Mailboxes -/

theorem enqueueMsg_tallies (m : Fin cfg.nmsg) (i : MbxIx cfg) (c : Core cfg) :
    Ensures (enqueueMsg m i c) (Tallies c) := by
  unfold enqueueMsg
  refine .ite (fun _ => ?_) fun _ => .ok ?_
  · unfold kqueueInsertMpri
    exact .bind' fun r _ => .ok ⟨rfl, rfl, fun _ => Or.inl rfl⟩
  · unfold appendMsg
    dsimp only
    split <;> exact ⟨rfl, rfl, fun _ => Or.inl rfl⟩

theorem _creMbx_holds (mbxid : Int) (pk : TCmbx) (s : Kernel cfg) :
    Holds s (_creMbx mbxid pk s) := by
  unfold _creMbx
  refine .ite (fun _ => holds_same s _) fun _ => .bind' fun i _ => ?_
  refine .ite (fun _ => holds_same s _) fun _ => .ok ?_
  exact .setRest (.setRest (.setLinks (.refl s) _) ⟨rfl, rfl, rfl⟩) ⟨rfl, rfl, rfl⟩

theorem acreMbx_holds (pk : TCmbx) (s : Kernel cfg) : Holds s (acreMbx pk s) := by
  unfold acreMbx
  generalize cfg.trsvMbxid = n, (cfg.tmaxMbxid : Int) + 1 = i
  induction n generalizing i with
  | zero => exact holds_same s _
  | succ n ih =>
    refine .bind' fun k _ => .ite (fun _ => ?_) fun _ => ih _
    exact .bind' fun r hr => .ok (_creMbx_holds i pk s r hr)

theorem _sndMbx_holds (mbxid : Int) (m : Fin cfg.nmsg) (s : Kernel cfg) :
    Holds s (_sndMbx mbxid m s) := by
  unfold _sndMbx
  refine .ite (fun _ => holds_same s _) fun _ => .bind' fun i _ => ?_
  refine .ite (fun _ => holds_same s _) fun _ => .ite (fun _ => holds_same s _) fun _ => ?_
  refine .ite (fun _ => .bind' fun t _ => .ok ?_) fun _ => .bind' fun c hc => .ok ?_
  · exact Holding.releaseOk (.setRest (.refl s) ⟨rfl, rfl, rfl⟩) t
  · exact enqueueMsg_tallies m i s.core c hc

theorem _rcvMbx_holds (mbxid : Int) (p : VP) (tmout : TMO) (s : Kernel cfg) :
    Holds s (_rcvMbx mbxid p tmout s) := by
  unfold _rcvMbx
  refine .ite (fun _ => holds_same s _) fun _ => .ite (fun _ => holds_same s _) fun _ => ?_
  refine .bind' fun i _ => .bind' fun r _ => ?_
  refine .ite (fun _ => .ok (.setTcb (.refl s) r rfl)) fun _ => ?_
  refine .ite (fun _ => .ok (.setRest (.setTcb (.refl s) r rfl) ⟨rfl, rfl, rfl⟩)) fun _ => ?_
  have hset := (Holding.refl s).setTcb r (f := fun tcb => { tcb with ercd := .tmout }) rfl
  refine .ite (fun _ => ?_) fun _ => .ok hset
  exact .bind' fun s' hs' => .ok (.dispatched ((hset.setTcb r rfl).waitOn r _ tmout s' hs'))

theorem refMbx_holds (mbxid : Int) (s : Kernel cfg) : Holds s (refMbx mbxid s) := by
  unfold refMbx
  refine .ite (fun _ => holds_same s _) fun _ => .bind' fun i _ => ?_
  exact .ite (fun _ => holds_same s _) fun _ => .bind' fun _ _ => holds_same s _

theorem delMbx_holds (mbxid : Int) (s : Kernel cfg) : Holds s (delMbx mbxid s) := by
  unfold delMbx
  refine .ite (fun _ => holds_same s _) fun _ => .bind' fun i _ => ?_
  refine .ite (fun _ => holds_same s _) fun _ => .bind' fun s₁ hs₁ => .ok ?_
  have hdel := Holding.deleteLoop _ _ (.refl s) s₁ hs₁
  exact .dispatched (.setRest (.setRest hdel ⟨rfl, rfl, rfl⟩) ⟨rfl, rfl, rfl⟩)

/-! ## Steps -/

theorem Holds.ite {c : Prop} [Decidable c] {x y : Outcome cfg} (h : Holds s x) (h' : Holds s y) :
    Holds s (if c then x else y) := Ensures.ite (fun _ => h) fun _ => h'

/-- **Only a tick counts.** -/
theorem exec_holds (s : Kernel cfg) {c : Call cfg} (hc : c ≠ .timerHandler) :
    Holds s (exec c s) := by
  cases c with
  | creTsk tskid pk => exact creTsk_holds tskid pk s
  | acreTsk pk => exact acreTsk_holds pk s
  | delTsk tskid => exact delTsk_holds tskid s
  | actTsk tskid => exact (_actTsk_holds tskid s).dispatchIfOk
  | iactTsk tskid => exact _actTsk_holds tskid s
  | chgPri tskid tskpri => exact chgPri_holds tskid tskpri s
  | rotRdq tskpri => exact rotRdq_holds tskpri s
  | extTsk => exact extTsk_holds s
  | dlyTsk dlytim => exact dlyTsk_holds dlytim s
  | susTsk tskid => exact susTsk_holds tskid s
  | rsmTsk tskid => exact rsmTsk_holds tskid s
  | slpTsk => exact _slpTsk_holds tmoFevr s
  | tslpTsk tmout => exact _slpTsk_holds tmout s
  | wupTsk tskid => exact (_wupTsk_holds tskid s).dispatchIfOk
  | iwupTsk tskid => exact _wupTsk_holds tskid s
  | canWup tskid => exact canWup_holds tskid s
  | creSem semid pk => exact .ite (holds_same s _) (_creSem_holds semid pk s)
  | acreSem pk => exact acreSem_holds pk s
  | waiSem semid => exact _waiSem_holds semid tmoFevr s
  | twaiSem semid tmout => exact _waiSem_holds semid tmout s
  | polSem semid => exact _waiSem_holds semid tmoPol s
  | sigSem semid => exact (_sigSem_holds semid s).dispatched
  | isigSem semid => exact _sigSem_holds semid s
  | delSem semid => exact delSem_holds semid s
  | refSem semid => exact refSem_holds semid s
  | creFlg flgid pk => exact .ite (holds_same s _) (_creFlg_holds flgid pk s)
  | acreFlg pk => exact acreFlg_holds pk s
  | setFlg flgid setptn => exact (_setFlg_holds flgid setptn s).dispatched
  | isetFlg flgid setptn => exact _setFlg_holds flgid setptn s
  | clrFlg flgid clrptn => exact clrFlg_holds flgid clrptn s
  | waiFlg flgid waiptn wfmode p => exact _waiFlg_holds flgid waiptn wfmode p tmoFevr s
  | twaiFlg flgid waiptn wfmode p tmout => exact _waiFlg_holds flgid waiptn wfmode p tmout s
  | polFlg flgid waiptn wfmode p => exact _waiFlg_holds flgid waiptn wfmode p tmoPol s
  | refFlg flgid => exact refFlg_holds flgid s
  | delFlg flgid => exact delFlg_holds flgid s
  | creMbx mbxid pk => exact .ite (holds_same s _) (_creMbx_holds mbxid pk s)
  | acreMbx pk => exact acreMbx_holds pk s
  | sndMbx mbxid m => exact (_sndMbx_holds mbxid m s).dispatched
  | rcvMbx mbxid p => exact _rcvMbx_holds mbxid p tmoFevr s
  | trcvMbx mbxid p tmout => exact _rcvMbx_holds mbxid p tmout s
  | prcvMbx mbxid p => exact _rcvMbx_holds mbxid p tmoPol s
  | refMbx mbxid => exact refMbx_holds mbxid s
  | delMbx mbxid => exact delMbx_holds mbxid s
  | timerHandler => exact absurd rfl hc
  | dispatch => exact holds_dispatch s _
  | setMsgpri m pri => exact .ok (.setRest (.refl s) ⟨rfl, rfl, rfl⟩)

/-! ## The tick -/

theorem Holding.callback (h : Holding s s') (e : TMEB cfg) :
    Ensures (runCallback e s') (Holding s) := by
  unfold runCallback
  split
  · exact .bind' fun t _ => .ok (h.releaseTmout t)
  · exact .ok h

theorem Holding.timerLoop (n : Nat) (event : Node cfg) (h : Holding s s') :
    Ensures (timerLoop n event s') (Holding s) := by
  induction n generalizing event s' with
  | zero => exact .error
  | succ n ih =>
    cases event with
    | timerQueue => exact .ok h
    | wtmeb t =>
      have hcount := h.setTcb t
        (f := fun tcb => { tcb with wtmeb := { tcb.wtmeb with count := tcb.wtmeb.count - 1 } }) rfl
      unfold Ittrium.timerLoop
      refine .ite (fun _ => ?_) fun _ => ih _ hcount
      exact .bind' fun s₁ hs₁ => ih _ (hcount.setLinks _ |>.callback _ s₁ hs₁)
    | _ => exact .error

/-- For which counter a tick comes, besides that of the wall clock. -/
def ticking (s : Kernel cfg) : Option (TskIx cfg) :=
  match s.runtsk with
  | .qnode t => some t
  | _ => none

/-- The counter in which a tick counts. -/
def tickCounter (s : Kernel cfg) : UW := s.core.ticks (ticking s)

/-- All ticks that are counted for a task or as idle. -/
def counted (c : Core cfg) : Nat :=
  total (fun tcb => tcb.runTicks.toNat) c.tcb + c.telemetryIdleTicks.toNat

theorem ticks_le_counted (c : Core cfg) (x : Option (TskIx cfg)) : (c.ticks x).toNat ≤ counted c := by
  cases x with
  | some t =>
    have hle := le_total (fun tcb : TCB cfg => tcb.runTicks.toNat) c.tcb t
    exact Nat.le_add_right_of_le hle
  | none => exact Nat.le_add_left _ _

/-- `c` is what the tick that interrupts `s` has counted. -/
structure Ticked (s : Kernel cfg) (c : Core cfg) : Prop where
  wall : c.telemetryWallTicks = s.core.telemetryWallTicks + 1
  each : ∀ x, c.ticks x = if x = ticking s then tickCounter s + 1 else s.core.ticks x
  counted : counted c + (tickCounter s).toNat = counted s.core + (tickCounter s + 1).toNat

/-- **A tick that runs the timer queue counts once for the wall clock, and once for the running task
or as idle.** -/
theorem timerHandler_counts (h0 : s.core.timerNesting = 0) :
    Ensures (timerHandler s) fun s' => ∃ c, Ticked s c ∧ Tallies c s'.core := by
  -- the walk through the timer queue counts nothing, it can only release tasks
  have hwalk : ∀ (s₁ : Kernel cfg) (event : Node cfg), Ticked s s₁.core →
      Ensures (timerLoop (cfg.tnumTskid + 1) event s₁ >>= fun s => .ok (s.setCore timerHwExit))
        fun s' => ∃ c, Ticked s c ∧ Tallies c s'.core := by
    intro s₁ event hs₁
    refine .bind' fun s₂ hs₂ => .ok ⟨_, hs₁, ?_⟩
    refine (Holding.timerLoop _ event (.refl s₁) s₂ hs₂).trans ?_
    simp only [Kernel.setCore, timerHwExit]
    split
    · exact ⟨rfl, rfl, fun _ => Or.inl rfl⟩
    · exact .refl _
  unfold timerHandler
  refine .ite (fun h => absurd h0 h) fun _ => .ite (fun _ => ?_) fun hidle => ?_
  -- a task runs, or the processor is idle
  · refine .bind' fun t ht => .bind' fun s₁ hs₁ => ?_
    obtain rfl := Except.ok.inj hs₁
    have hrun : s.runtsk = .qnode t := by
      have ht : tcbOf s.runtsk = .ok t := ht
      cases hr : s.runtsk with
      | qnode u =>
        rw [hr] at ht
        rw [Except.ok.inj ht]
      | _ => rw [hr] at ht; cases ht
    have hadd := total_update (fun tcb : TCB cfg => tcb.runTicks.toNat) s.core.tcb t
      { s.core.tcb t with runTicks := (s.core.tcb t).runTicks + 1 }
    have hticking : ticking s = some t := by simp only [ticking, hrun]
    have hcounter : tickCounter s = (s.core.tcb t).runTicks := by rw [tickCounter, hticking]; rfl
    refine hwalk _ _ ⟨rfl, fun x => ?_, ?_⟩
    · rw [hticking, hcounter]
      cases x with
      | none => rfl
      | some u =>
        show (Function.update s.core.tcb t _ u).runTicks = _
        by_cases hu : u = t
        · subst hu
          rw [if_pos rfl, Function.update_self]
          rfl
        · rw [if_neg fun he => hu (Option.some.inj he), Function.update_of_ne hu]
          rfl
    rw [hcounter]
    exact (Nat.add_right_comm ..).trans ((congrArg (· + _) hadd).trans (Nat.add_right_comm ..))
  · refine .bind' fun s₁ hs₁ => ?_
    obtain rfl := Except.ok.inj hs₁
    have hnull : s.runtsk = .null := Classical.not_not.mp hidle
    have hticking : ticking s = none := by simp only [ticking, hnull]
    have hcounter : tickCounter s = s.core.telemetryIdleTicks := by rw [tickCounter, hticking]; rfl
    refine hwalk _ _ ⟨rfl, fun x => ?_, ?_⟩
    · rw [hticking, hcounter]
      cases x <;> rfl
    rw [hcounter]
    show total _ s.core.tcb + (s.core.telemetryIdleTicks + 1).toNat + _ =
      total _ s.core.tcb + _ + _
    omega

/-! ## Runs -/

/-- What is counted is not more than what the wall clock says. -/
def Bounded (c : Core cfg) : Prop := counted c ≤ c.telemetryWallTicks.toNat

theorem Bounded.tallies {c c' : Core cfg} (h : Bounded c) (ht : Tallies c c') : Bounded c' := by
  have hle : total (fun tcb => tcb.runTicks.toNat) c'.tcb ≤
      total (fun tcb => tcb.runTicks.toNat) c.tcb :=
    Finset.sum_le_sum fun t _ => ht.ticks_le (some t)
  unfold Bounded counted at *
  rw [ht.wall, ht.idle]
  omega

/-- The tick does not wrap the wall clock, unless the counter in which it counts wraps as well. -/
def NoWrap (s : Kernel cfg) : Prop :=
  s.core.telemetryWallTicks = BitVec.allOnes 32 → tickCounter s = BitVec.allOnes 32

theorem Bounded.ticked {c : Core cfg} (h : Bounded s.core) (ht : Ticked s c) :
    Bounded c ↔ NoWrap s := by
  have hle : (tickCounter s).toNat ≤ counted s.core := ticks_le_counted s.core _
  have hcounted := ht.counted
  unfold Bounded at *
  unfold NoWrap
  rw [ht.wall]
  rw [← BitVec.toNat_inj, ← BitVec.toNat_inj, BitVec.toNat_allOnes]
  simp only [BitVec.toNat_add, BitVec.ofNat_eq_ofNat, BitVec.toNat_ofNat] at hcounted ⊢
  have hw := s.core.telemetryWallTicks.isLt
  have hx := (tickCounter s).isLt
  omega

/-- The condition on a step. A nested tick counts nothing. -/
def WallFits (s : Kernel cfg) (c : Call cfg) : Prop :=
  c = .timerHandler → s.core.timerNesting = 0 → NoWrap s

instance (s : Kernel cfg) (c : Call cfg) : Decidable (WallFits s c) := by
  unfold WallFits NoWrap
  infer_instance

theorem Bounded.tick (h : Bounded s.core) (hc : s.core.timerNesting = 0 → NoWrap s) :
    Ensures (timerHandler s) fun s' => Bounded s'.core := by
  by_cases h0 : s.core.timerNesting = 0
  · refine (timerHandler_counts h0).mono fun s' hs' => ?_
    obtain ⟨c, hticked, htallies⟩ := hs'
    exact ((h.ticked hticked).mpr (hc h0)).tallies htallies
  · rw [timerHandler_nested h0]
    exact .ok h

/-- **A step that meets the condition keeps the bound.** -/
theorem Bounded.step {c : Call cfg} {r : Ret cfg} (h : Bounded s.core) (hc : WallFits s c)
    (he : exec c s = .ok (s', r)) : Bounded s'.core := by
  by_cases htick : c = .timerHandler
  · subst htick
    have hstep : Ensures (exec .timerHandler s) fun v => Bounded v.1.core :=
      .bind' fun s₁ hs₁ => .ok (h.tick (hc rfl) s₁ hs₁)
    exact hstep _ he
  · exact h.tallies (exec_holds s htick _ he)

/-- `main` after the initializations, when the program has just been loaded. -/
def Loaded (s : Kernel cfg) : Prop :=
  ∃ m, m.core.telemetryWallTicks = 0 ∧ m.core.telemetryIdleTicks = 0 ∧ s = boot m

theorem boot_runTicks (m : Kernel cfg) (t : TskIx cfg) : ((boot m).core.tcb t).runTicks = 0 := by
  unfold boot
  rw [(Refine.mailboxInitialize_keep _).1, (Refine.semaphoreInitialize_keep _).1,
    (Refine.eventflagInitialize_keep _).1]
  show ((taskInitialize m).core.tcb t).runTicks = _
  unfold taskInitialize Kernel.setTcb
  simp only [Refine.foldl_setCore_setLinks]
  exact Refine.foldl_set (P := fun tcb => tcb.runTicks = 0) Core.tcb
    (by intros; simp [Core.setTcb]) (by intros; simp [Core.setTcb, *]) _ _ t
    (.inl (List.mem_finRange t))

/-- The two counters that belong to no task. -/
def Core.telemetry (c : Core cfg) : UW × UW := (c.telemetryWallTicks, c.telemetryIdleTicks)

theorem boot_telemetry (m : Kernel cfg) : (boot m).core.telemetry = m.core.telemetry := by
  unfold boot mailboxInitialize semaphoreInitialize eventflagInitialize timerInitialize
    taskInitialize Kernel.setTcb
  simp only [Refine.foldl_setCore_setLinks]
  refine (Refine.foldl_keep Core.telemetry ?_ _ _).trans
    ((Refine.foldl_keep Core.telemetry ?_ _ _).trans
      ((Refine.foldl_keep Core.telemetry ?_ _ _).trans (Refine.foldl_keep Core.telemetry ?_ _ _)))
  all_goals
    intros
    rfl

theorem Loaded.bounded (h : Loaded s) : Bounded s.core := by
  obtain ⟨m, -, hidle, rfl⟩ := h
  have htasks : total (fun tcb : TCB cfg => tcb.runTicks.toNat) (boot m).core.tcb = 0 :=
    total_eq_zero.mpr fun t => by rw [boot_runTicks]; rfl
  unfold Bounded counted
  rw [htasks, (Prod.mk.inj (boot_telemetry m)).2, hidle]
  exact Nat.zero_le _

end Ittrium
