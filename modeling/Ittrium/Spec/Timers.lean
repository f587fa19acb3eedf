import Ittrium.Spec.Quiet
import Mathlib.Order.Fin.Basic

/-!
# Timers of waiting tasks

* `Model.timers` — the timer of every task
* `exec_timers` — **only a tick and a wait that begins touch a timer**
* `timerHandler_tcb` — **a tick counts down each timer in the queue once**, and ends the wait of a
  task whose timer has run out
* `exec_blocked` — what the timer and the result of a task are when it begins to wait
-/

namespace Ittrium.Spec

open Infra

variable {cfg : Config} {a a' : Model cfg} {l : Line cfg} {t u : TskIx cfg} {o : ObjId cfg}
  {c : Call cfg} {r : Ret cfg} {tmout : TMO}

/-! ## Timers that are not touched -/

/-- The timer of every task. -/
def Model.timers (a : Model cfg) (t : TskIx cfg) : TMEB cfg := (a.core.tcb t).wtmeb

theorem Model.timers_of_tcb (h : a'.core.tcb = a.core.tcb) : a'.timers = a.timers := by
  funext t
  rw [timers, timers, h]

theorem Model.timers_delete (h : Settled a) : (a.delete t).timers = a.timers := by
  funext u
  unfold timers
  by_cases hu : u = t
  · rw [hu, delete_tcb_eq]
  · rw [(Others.delete h).tcb u hu]

/-- **Only a tick and a wait that begins touch a timer.** -/
theorem exec_timers (h : Settled a) (hc : c ≠ .timerHandler) (he : exec c a = .ok (a', r))
    (hr : r ≠ .blocked) : a'.timers = a.timers := by
  by_cases hd : ∃ tskid, c = .delTsk tskid
  · obtain ⟨tskid, rfl⟩ := hd
    rcases delTsk_cases he with rfl | ⟨-, t, -, -, rfl⟩
    · rfl
    · exact Model.timers_delete h
  · have hq := exec_quiet hc (fun tskid hd' => hd ⟨tskid, hd'⟩) _ he hr
    funext t
    exact (hq t).wtmeb

/-! ## The tick -/

/-- One tick less, and none left ends the wait with the result the task has. -/
def tickTcb (tcb : TCB cfg) : TCB cfg :=
  let tcb := { tcb with wtmeb := { tcb.wtmeb with count := tcb.wtmeb.count - 1 } }
  if tcb.wtmeb.count = 0 then
    { tcb with tskwait := .none, state := if tcb.state = .wai then .rdy else .sus }
  else tcb

/-- The tick is counted for the running task. -/
def accountTcb (a : Model cfg) (t : TskIx cfg) : TCB cfg :=
  let tcb := a.core.tcb t
  if a.runtsk = some t then { tcb with runTicks := tcb.runTicks + 1 } else tcb

/-- The last tick of a wait. -/
theorem tickTcb_last {tcb : TCB cfg} (h : tcb.wtmeb.count - 1 = 0) :
    tickTcb tcb = { tcb with
      wtmeb := { tcb.wtmeb with count := 0 }
      tskwait := .none
      state := if tcb.state = .wai then .rdy else .sus } := by
  unfold tickTcb
  simp only [h, if_true]

/-- A tick that is not the last one of a wait. -/
theorem tickTcb_next {tcb : TCB cfg} (h : tcb.wtmeb.count - 1 ≠ 0) :
    tickTcb tcb = { tcb with wtmeb := { tcb.wtmeb with count := tcb.wtmeb.count - 1 } } := by
  unfold tickTcb
  simp only [h, if_false]

/-- Ticks are not counted for a task that waits. -/
theorem Inv.accountTcb_of_waiting (h : Inv a) (hw : (a.core.tcb t).state.waiting) :
    accountTcb a t = a.core.tcb t := by
  unfold accountTcb
  refine if_neg fun hr => ?_
  rw [h.runtsk t hr] at hw
  simp [Stat.waiting_iff] at hw

theorem tickOne_tcb (t : TskIx cfg) (a : Model cfg) :
    (a.tickOne t).core.tcb t = tickTcb (a.core.tcb t) := by
  unfold Model.tickOne tickTcb
  simp only [Model.setTcb_tcb_self]
  split
  · rw [Model.endWait_tcb, Model.setTcb_tcb_self]
  · rw [Model.setTcb_tcb_self]

/-- Each task of the line is met once, and only then touched. -/
theorem foldl_tickOne_tcb (t : TskIx cfg) :
    ∀ (ts : List (TskIx cfg)) (a : Model cfg), ts.Nodup → (∀ u ∈ ts, u ∈ a.queue .timer) →
      Settled a → (ts.foldl (fun a t => a.tickOne t) a).core.tcb t =
        if t ∈ ts then tickTcb (a.core.tcb t) else a.core.tcb t
  | [], _, _, _, _ => by simp
  | u :: ts, a, hnd, hm, h => by
    obtain ⟨hno, hnd'⟩ := List.nodup_cons.mp hnd
    have hoth := Others.tickOne h u
    have hs := (h.tickOne ((h.task u).timer (hm u (by simp))).1).settled
    have hrest := foldl_tickOne_tcb t ts (a.tickOne u) hnd'
      (fun v hv => hoth.mem_of_ne (fun he => hno (he ▸ hv)) (hm v (by simp [hv]))) hs
    rw [List.foldl_cons, hrest]
    by_cases htu : t = u
    · subst htu
      rw [if_neg hno, if_pos (by simp), tickOne_tcb]
    · rw [hoth.tcb t htu]
      simp [htu]

/-- **A tick counts down each timer in the queue once.** -/
theorem Settled.timerHandler_tcb (h : Settled a) (t : TskIx cfg) :
    (Spec.timerHandler a).core.tcb t =
      if t ∈ a.queue .timer then tickTcb (accountTcb a t) else accountTcb a t := by
  have h₀ : Settled (a.setCore fun c => (timerHwEnter c).2) := h.setTicks rfl rfl
  have hexit := timerHwExit_tcb (a.setCore fun c => (timerHwEnter c).2).account.tick.core
  have hacc : (a.setCore fun c => (timerHwEnter c).2).account.core.tcb t = accountTcb a t ∧
      (a.setCore fun c => (timerHwEnter c).2).account.queue = a.queue := by
    unfold Model.account accountTcb
    dsimp only [Model.setCore]
    cases hr : a.runtsk with
    | none => exact ⟨rfl, rfl⟩
    | some u =>
      refine ⟨?_, rfl⟩
      by_cases hu : t = u
      · subst hu
        rw [Model.setTcb_tcb_self, if_pos rfl]
        rfl
      · rw [Model.setTcb_tcb_of_ne hu, if_neg fun he => hu (Option.some.inj he).symm]
        rfl
  have htick := foldl_tickOne_tcb t ((a.setCore fun c => (timerHwEnter c).2).account.queue .timer)
    _ (h₀.account.settled.nodup _) (fun _ hu => hu) h₀.account.settled
  rw [show (Spec.timerHandler a).core.tcb t = _ from congrFun hexit t, Model.tick, htick, hacc.1,
    hacc.2]

/-! ## Waits that begin -/

/-- The result a task has while it waits, if nothing else happens. -/
def Call.waitErcd : Call cfg → ER
  | .dlyTsk _ => .ok
  | _ => .tmout

/-- What a task is left with when it begins to wait. -/
structure Started (e : ER) (tmout : TMO) (t : TskIx cfg) (a' : Model cfg) : Prop where
  ercd : (a'.core.tcb t).ercd = e
  count : tmout ≠ tmoFevr → (a'.timers t).count = tmout.signExtend 32

theorem startTimer_count (t : TskIx cfg) (a : Model cfg) (h : tmout ≠ tmoFevr) :
    ((a.startTimer t tmout).timers t).count = tmout.signExtend 32 := by
  unfold Model.startTimer Model.timers
  simp only [if_neg h, Model.enq_core, Model.setTcb_tcb_self]

theorem objWait_core (t : TskIx cfg) (o : ObjId cfg) (tmout : TMO) (a : Model cfg) :
    (a.objWait t o tmout).core =
      ((a.setTcb t fun tcb => { tcb with waitObj := some o }).startWait t tmout).core := by
  unfold Model.objWait
  dsimp only
  split <;> rfl

/-- The timer is set, and the result is the one set before. -/
theorem startWait_started (t : TskIx cfg) (tmout : TMO) (a : Model cfg) {f : TCB cfg → TCB cfg}
    (hf : (f (a.core.tcb t)).ercd = (a.core.tcb t).ercd) :
    Started (a.core.tcb t).ercd tmout t ((a.setTcb t f).startWait t tmout) := by
  refine ⟨?_, fun h => startTimer_count t _ h⟩
  obtain ⟨m, hm⟩ := Model.startWait_tcb t tmout (a.setTcb t f)
  rw [hm, Model.setTcb_tcb_self]
  exact hf

theorem objWait_started (t : TskIx cfg) (o : ObjId cfg) (tmout : TMO) (a : Model cfg) :
    Started (a.core.tcb t).ercd tmout t (a.objWait t o tmout) := by
  have h := startWait_started t tmout a (f := fun tcb => { tcb with waitObj := some o }) rfl
  refine ⟨?_, fun ht => ?_⟩
  · rw [objWait_core]
    exact h.ercd
  · rw [Model.timers_of_tcb (congrArg Core.tcb (objWait_core t o tmout a))]
    exact h.count ht

theorem Started.dispatch {e : ER} (h : Started e tmout t a) : Started e tmout t a.dispatch :=
  ⟨h.ercd, h.count⟩

/-- If the call makes its caller wait, it sets the timer and the result, and it did not poll. -/
abbrev Starts (e : ER) (tmout : TMO) (a : Model cfg) (x : Outcome cfg) : Prop :=
  Ensures x fun v => v.2 = .blocked →
    (tmout = tmoPol → e = .ok) ∧ ∃ t, a.runtsk = some t ∧ Started e tmout t v.1

theorem starts_ok {e e' : ER} : Starts e tmout a (.ok (a', .er e')) :=
  Ensures.ok fun h => by cases h

theorem starts_dlyTsk {dlytim : RELTIM} :
    Starts .ok (dlytim.setWidth 16) a (Spec.dlyTsk dlytim a) := by
  unfold Spec.dlyTsk
  refine .bind' fun t ht => .ok fun _ => ⟨fun _ => rfl, t, runTcb_eq ht, Started.dispatch ?_⟩
  have h := startWait_started t (dlytim.setWidth 16) (a.setTcb t fun tcb => { tcb with ercd := .ok })
    (f := fun tcb => { tcb with waitObj := none, tskwait := .dly }) rfl
  rwa [Model.setTcb_tcb_self] at h

theorem starts_slpTsk : Starts .tmout tmout a (_slpTsk tmout a) := by
  unfold Spec._slpTsk
  refine .bind' fun t ht => .ite (fun _ => starts_ok) fun _ => .ite (fun hp => ?_) fun _ => starts_ok
  refine .ok fun _ => ⟨fun hk => absurd hk.symm hp, t, runTcb_eq ht, Started.dispatch ?_⟩
  have h := startWait_started t tmout (a.setTcb t fun tcb => { tcb with ercd := .tmout })
    (f := fun tcb => { tcb with waitObj := none, tskwait := .slp }) rfl
  rwa [Model.setTcb_tcb_self] at h

theorem starts_waiSem {semid : Int} : Starts .tmout tmout a (_waiSem semid tmout a) := by
  unfold Spec._waiSem
  refine .ite (fun _ => starts_ok) fun _ => .bind' fun i _ => .ite (fun _ => starts_ok) fun _ => ?_
  refine .bind' fun t ht => .ite (fun _ => starts_ok) fun _ => ?_
  refine .ite (fun hp => ?_) fun _ => starts_ok
  refine .ok fun _ => ⟨fun hk => absurd hk.symm hp, t, runTcb_eq ht, Started.dispatch ?_⟩
  have h := objWait_started t (.sem i) tmout (a.setTcb t fun tcb => { tcb with ercd := .tmout })
  rwa [Model.setTcb_tcb_self] at h

theorem starts_waiFlg {flgid : Int} {waiptn : FLGPTN} {wfmode : MODE} {p : VP} :
    Starts .tmout tmout a (_waiFlg flgid waiptn wfmode p tmout a) := by
  unfold Spec._waiFlg
  refine .ite (fun _ => starts_ok) fun _ => .ite (fun _ => starts_ok) fun _ => ?_
  refine .bind' fun i _ => .bind' fun t ht => .ite (fun _ => starts_ok) fun _ => ?_
  refine .ite (fun _ => starts_ok) fun _ => .ite (fun _ => starts_ok) fun _ => ?_
  refine .ite (fun hp => ?_) fun _ => starts_ok
  refine .ok fun _ => ⟨fun hk => absurd hk.symm hp, t, runTcb_eq ht, Started.dispatch ?_⟩
  have h := objWait_started t (.flg i) tmout
    ((a.setTcb t fun tcb => { tcb with ercd := .tmout }).setTcb t fun tcb =>
      { tcb with waitinfo := .flg waiptn wfmode p })
  rwa [Model.setTcb_tcb_self, Model.setTcb_tcb_self] at h

theorem starts_rcvMbx {mbxid : Int} {p : VP} :
    Starts .tmout tmout a (_rcvMbx mbxid p tmout a) := by
  unfold Spec._rcvMbx
  refine .ite (fun _ => starts_ok) fun _ => .ite (fun _ => starts_ok) fun _ => ?_
  refine .bind' fun i _ => .bind' fun t ht => .ite (fun _ => starts_ok) fun _ => ?_
  refine .ite (fun _ => starts_ok) fun _ => .ite (fun hp => ?_) fun _ => starts_ok
  refine .ok fun _ => ⟨fun hk => absurd hk hp, t, runTcb_eq ht, Started.dispatch ?_⟩
  have h := objWait_started t (.mbx i) tmout
    ((a.setTcb t fun tcb => { tcb with ercd := .tmout }).setTcb t fun tcb =>
      { tcb with waitinfo := .mbx p })
  rwa [Model.setTcb_tcb_self, Model.setTcb_tcb_self] at h

/-- **The timer and the result of a task that begins to wait.** -/
theorem exec_blocked {w : Option (ObjId cfg) × TMO} (hw : Call.wait c = some w)
    (he : exec c a = .ok (a', .blocked)) :
    (w.2 = tmoPol → Call.waitErcd c = .ok) ∧
    ∃ t, a.runtsk = some t ∧ Started (Call.waitErcd c) w.2 t a' := by
  have hsnd : ∀ {ι : Type} {f : ι → ObjId cfg} {x : Exec ι} {k : TMO},
      x.toOption.map (fun i => (some (f i), k)) = some w → w.2 = k := by
    intro ι f x k h
    obtain ⟨i, -, rfl⟩ := Option.map_eq_some_iff.mp h
    rfl
  cases c with
  | dlyTsk dlytim => cases hw; exact starts_dlyTsk _ he rfl
  | slpTsk => cases hw; exact starts_slpTsk _ he rfl
  | tslpTsk tmout => cases hw; exact starts_slpTsk _ he rfl
  | waiSem semid => rw [hsnd hw]; exact starts_waiSem _ he rfl
  | twaiSem semid tmout => rw [hsnd hw]; exact starts_waiSem _ he rfl
  | polSem semid => rw [hsnd hw]; exact starts_waiSem _ he rfl
  | waiFlg flgid waiptn wfmode p => rw [hsnd hw]; exact starts_waiFlg _ he rfl
  | twaiFlg flgid waiptn wfmode p tmout => rw [hsnd hw]; exact starts_waiFlg _ he rfl
  | polFlg flgid waiptn wfmode p => rw [hsnd hw]; exact starts_waiFlg _ he rfl
  | rcvMbx mbxid p => rw [hsnd hw]; exact starts_rcvMbx _ he rfl
  | trcvMbx mbxid p tmout => rw [hsnd hw]; exact starts_rcvMbx _ he rfl
  | prcvMbx mbxid p => rw [hsnd hw]; exact starts_rcvMbx _ he rfl
  | _ => cases hw

end Ittrium.Spec
