import Ittrium.Properties.Deletion
import Ittrium.Spec.Requests

/-!
# Activation requests

* `Accepted`, `Started` — a request is taken, a task begins at its entry point
* `ActStep` — what single steps do about a task: refused requests, restarts, ends, and starts after
* `activations_conserved` — **as many requests have been taken as there have been starts and are
  still queued**
-/

namespace Ittrium

open Infra

variable {cfg : Config} {t u : TskIx cfg} {tr : Trace cfg} {s s' : Kernel cfg}
  {a a' : Spec.Model cfg} {c : Call cfg} {r : Ret cfg} {e : Event (Kernel cfg) (Label cfg)}

/-! ## Requests and starts -/

/-- `act_tsk` or `iact_tsk` of `t`. -/
def Activates (t : TskIx cfg) (s : Kernel cfg) : Call cfg → Prop
  | .actTsk tskid | .iactTsk tskid => (getTcbSelf tskid s).toOption = some t
  | _ => False

instance (t : TskIx cfg) (s : Kernel cfg) (c : Call cfg) : Decidable (Activates t s c) := by
  apply @Call.casesOn cfg (fun c => Decidable (Activates t s c)) c <;> intros <;>
    first | (change Decidable (_ = _); infer_instance) | exact .isFalse not_false

/-- A request to start `t` returns `E_OK`. -/
def Accepted (t : TskIx cfg) (e : Event (Kernel cfg) (Label cfg)) : Prop :=
  Activates t e.pre e.label.1 ∧ e.label.2 = .er .ok

/-- `ext_tsk` by `t`. -/
def Exits (t : TskIx cfg) (e : Event (Kernel cfg) (Label cfg)) : Prop :=
  e.label.1 = .extTsk ∧ e.pre.runtsk = .qnode t

/-- `t` has been dormant, or has just ended, and is ready. -/
def Started (t : TskIx cfg) (e : Event (Kernel cfg) (Label cfg)) : Prop :=
  (e.post.core.tcb t).state = .rdy ∧ ((e.pre.core.tcb t).state = .dmt ∨ Exits t e)

instance : DecidablePred (Accepted t) := fun e =>
  inferInstanceAs (Decidable (Activates t e.pre e.label.1 ∧ e.label.2 = .er .ok))

instance : DecidablePred (Started t) := fun e =>
  inferInstanceAs (Decidable ((e.post.core.tcb t).state = .rdy ∧
    ((e.pre.core.tcb t).state = .dmt ∨ (e.label.1 = .extTsk ∧ e.pre.runtsk = .qnode t))))

/-- The call does not delete `t`: `del_tsk` refuses the running task. -/
def Spares (t : TskIx cfg) (s : Kernel cfg) : Call cfg → Prop
  | .delTsk tskid => (getTcb tskid).toOption = some t → s.runtsk = .qnode t
  | _ => True

instance (t : TskIx cfg) (s : Kernel cfg) (c : Call cfg) : Decidable (Spares t s c) := by
  apply @Call.casesOn cfg (fun c => Decidable (Spares t s c)) c <;> intros <;>
    first | (change Decidable (_ → _); infer_instance) | exact .isTrue trivial

/-- Neither node of `t` is on a ring. -/
structure OnNoQueue (t : TskIx cfg) (s : Kernel cfg) : Prop where
  ready : ∀ p, Spec.LinePri cfg p → ¬ s.links.Reaches (.priq p) (.qnode t)
  waitq : ∀ o, ¬ s.links.Reaches (.waitq o) (.qnode t)
  timer : ¬ s.links.Reaches .timerQueue (.wtmeb t)
  free : ¬ s.links.Reaches .freeTcb (.qnode t)

/-- `t` begins anew, with one request less and as after its creation, last in its ready line. -/
structure Restarted (t : TskIx cfg) (e : Event (Kernel cfg) (Label cfg)) : Prop where
  started : Started t e
  actcnt : (e.post.core.tcb t).actcnt = (e.pre.core.tcb t).actcnt - 1
  wupcnt : (e.post.core.tcb t).wupcnt = 0
  suscnt : (e.post.core.tcb t).suscnt = 0
  tskpri : (e.post.core.tcb t).tskpri = (e.post.core.tcb t).itskpri
  last : (readyTasks (e.post.core.tcb t).itskpri e.post).getLast? = some t

/-- What a step does about `t`. -/
structure ActStep (t : TskIx cfg) (e : Event (Kernel cfg) (Label cfg)) : Prop where
  /-- A request refused because there are too many starts nothing. -/
  full : (∃ u, Activates u e.pre e.label.1) → e.label.2 = .er .qovr →
    e.post.core = e.pre.core ∧ ∀ u, ¬ Started u e
  /-- A start is one from the entry point, on an empty stack. -/
  entry : Started t e → (e.post.core.tcb t).tskctxb =
    { sp := ((e.post.core.tcb t).stk &&& ~~~ 15#64) - 272, pc := (e.post.core.tcb t).task }
  restart : Exits t e → (e.pre.core.tcb t).actcnt ≠ 0 → Restarted t e
  exit : Exits t e → (e.pre.core.tcb t).actcnt = 0 →
    (e.post.core.tcb t).state = .dmt ∧ OnNoQueue t e.post
  /-- A dormant task is started by the next request. -/
  start : (e.pre.core.tcb t).state = .dmt → Activates t e.pre e.label.1 → Accepted t e ∧ Started t e
  stays : (e.pre.core.tcb t).state = .dmt → ¬ Activates t e.pre e.label.1 →
    (e.post.core.tcb t).state = .dmt ∧ OnNoQueue t e.post

/-! ## One step -/

theorem Models.activates_iff (h : Models s a) : Activates t s c ↔ Spec.ActsOn t c a := by
  have hget : ∀ tskid, (getTcbSelf tskid s).toOption = some t ↔ Spec.getTcbSelf tskid a = .ok t := by
    intro tskid
    rw [h.refines.getTcbSelf]
    cases Spec.getTcbSelf tskid a <;> simp [Except.toOption]
  unfold Spec.ActsOn
  cases c with
  | actTsk id => simpa [Activates, Spec.Call.isAct] using hget id
  | iactTsk id => simpa [Activates, Spec.Call.isAct] using hget id
  | _ => simp [Activates, Spec.Call.isAct]

theorem Models.runtsk_iff (h : Models s a) : s.runtsk = .qnode t ↔ a.runtsk = some t := by
  rw [h.refines.runtsk, Refine.ptr_eq_qnode]

/-- A dormant task is on no ring. -/
theorem Models.onNoQueue (h : Models s a) (ht : (s.core.tcb t).state = .dmt) : OnNoQueue t s := by
  rw [h.refines.core] at ht
  have htask := h.inv.toSettled.task t
  have hwait : ¬ (a.core.tcb t).state.waiting := by simp [ht, Stat.waiting_iff]
  refine ⟨?_, ?_, ?_, ?_⟩
  · intro p hp hr
    rw [(h.ring_ready hp).reaches_iff] at hr
    have hm : t ∈ a.queue (.ready p) := by simpa using hr
    simp [ht, htask.ready] at hm
  · intro o hr
    by_cases ho : (s.core.objcb o).state = .noexs
    · exact h.waitq_noexs ho t hr
    · rw [(h.ring_waitq ho).reaches_iff] at hr
      have hm : t ∈ a.queue (.waitq o) := by simpa using hr
      exact hwait ((htask.waitq o).mp hm).1
  · rw [h.reaches_timer]
    exact fun hm => hwait (htask.timer hm).1
  · intro hr
    have hring : Ring s.links .freeTcb ((a.queue .free).map .qnode) :=
      h.refines.ring (l := .free) ⟨trivial, id⟩
    rw [hring.reaches_iff] at hr
    have hm : t ∈ a.queue .free := by simpa using hr
    simp [ht, htask.free] at hm

section

variable {C : Kernel cfg → Call cfg → Prop}

theorem Moves.activity (h : Moves C s a c r s' a') (ht : (a.core.tcb t).state ≠ .noexs)
    (hd : Spares t s c) : Spec.Activity t a c r a' := by
  refine Spec.exec_activity h.pre.inv h.spec ht ?_
  rintro tskid rfl hid
  rw [← h.pre.runtsk_iff]
  exact hd (by rw [hid]; rfl)

/-- A task that is spared goes on existing. -/
theorem Moves.lasts (h : Moves C s a c r s' a') (ht : (a.core.tcb t).state ≠ .noexs)
    (hd : Spares t s c) : (a'.core.tcb t).state ≠ .noexs := by
  refine Spec.exec_tsk_lasts h.pre.inv h.sound h.spec ht ?_
  rintro tskid rfl hid
  have hrun := h.pre.runtsk_iff.mp (hd (by rw [hid]; rfl))
  suffices hno : Ensures (Spec.delTsk tskid a) fun v => v.2 ≠ .er .ok from hno _ h.spec
  unfold Spec.delTsk
  refine .ite (fun _ => .ok (by simp)) fun _ => .bind' fun u hu => ?_
  obtain rfl := Except.ok.inj (hid.symm.trans hu)
  refine .ite (fun _ => .ok (by simp)) fun _ => .ite (fun _ => .ok (by simp)) fun hne => ?_
  exact absurd hrun hne

/-- A request that is refused because there are too many. -/
theorem Moves.full (h : Moves C s a c r s' a') (hc : Activates u s c) (hr : r = .er .qovr) :
    s'.core = s.core := by
  obtain ⟨tskid, hact, -⟩ := h.pre.activates_iff.mp hc
  obtain ⟨b, hb, hup⟩ := Spec.exec_actTsk hact h.spec
  rw [h.post.refines.core, h.pre.refines.core, hup.core]
  subst hr
  cases hb with
  | refused => rfl
  | full => rfl

theorem Moves.full_starts_nothing (h : Moves C s a c r s' a') (hc : Activates u s c)
    (hr : r = .er .qovr) (v : TskIx cfg) : ¬ Started v ⟨s, (c, r), s'⟩ := by
  rintro ⟨hs, hd | ⟨rfl, -⟩⟩
  · dsimp only at hs hd
    rw [h.full hc hr, hd] at hs
    cases hs
  · exact hc

/-- The end of a task that has been asked to start again. -/
theorem Moves.restarted (h : Moves C s a c r s' a') (hc : c = .extTsk) (hr : a.runtsk = some t)
    (ha' : a' = (a.exit t).dispatch) (hcnt : (a.core.tcb t).actcnt ≠ 0) :
    Restarted t ⟨s, (c, r), s'⟩ := by
  have hs := h.pre.inv.toSettled
  obtain ⟨htcb, hq⟩ := Spec.exit_restarts hcnt
  have htcb' : s'.core.tcb t = (a.exit t).core.tcb t := by
    rw [h.post.refines.core, ha']
    rfl
  rw [htcb] at htcb'
  refine ⟨⟨?_, Or.inr ⟨hc, h.pre.runtsk_iff.mpr hr⟩⟩, ?_, ?_, ?_, ?_, ?_⟩
  · exact congrArg TCB.state htcb'
  · show (s'.core.tcb t).actcnt = (s.core.tcb t).actcnt - 1
    rw [htcb', h.pre.refines.core]
  · exact congrArg TCB.wupcnt htcb'
  · exact congrArg TCB.suscnt htcb'
  · show (s'.core.tcb t).tskpri = (s'.core.tcb t).itskpri
    rw [htcb']
  · show (readyTasks (s'.core.tcb t).itskpri s').getLast? = some t
    have hrdy := h.pre.inv.runtsk t hr
    have hline : Spec.LinePri cfg (a.core.tcb t).itskpri :=
      (hs.task t).itskpri (by rw [hrdy]; simp)
    rw [htcb']
    dsimp only
    rw [h.post.readyTasks_eq hline, ha']
    show ((a.exit t).queue (.ready (a.core.tcb t).itskpri)).getLast? = some t
    rw [hq, if_pos rfl, List.getLast?_append]
    simp

theorem Moves.exited (h : Moves C s a c r s' a') (ha' : a' = (a.exit t).dispatch)
    (hcnt : (a.core.tcb t).actcnt = 0) : (s'.core.tcb t).state = .dmt := by
  rw [h.post.refines.core, ha']
  show ((a.exit t).core.tcb t).state = .dmt
  rw [Spec.exit_dormant hcnt, Spec.dormant_tcb]

/-- **What a step does about a task** that exists. -/
theorem Moves.actStep (h : Moves C s a c r s' a') (ht : (a.core.tcb t).state ≠ .noexs)
    (hd : Spares t s c) : ActStep t ⟨s, (c, r), s'⟩ := by
  have hact := h.activity ht hd
  have hcore := h.pre.refines.core
  have hcore' := h.post.refines.core
  have hrdy : ∀ hr : a.runtsk = some t, (a.core.tcb t).state = .rdy := h.pre.inv.runtsk t
  -- which case it is follows from the call and the state before
  refine ⟨?_, ?_, ?_, ?_, ?_, ?_⟩
  · rintro ⟨u, hu⟩ hr
    exact ⟨h.full hu hr, h.full_starts_nothing hu hr⟩
  · rintro ⟨hs, hwhy⟩
    dsimp only at hs hwhy ⊢
    cases hact with
    | started _ _ _ htcb => rw [hcore', htcb, Spec.activate_tcb]
    | queued hon _ hnd _ _ =>
      rcases hwhy with hdm | ⟨hc, -⟩
      · rw [hcore] at hdm
        exact absurd hdm hnd
      · dsimp only at hc
        subst hc
        exact absurd hon.choose_spec.1 id
    | exited hc hr ha' =>
      by_cases hcnt : (a.core.tcb t).actcnt = 0
      · rw [h.exited ha' hcnt] at hs
        cases hs
      · rw [hcore', ha']
        show ((a.exit t).core.tcb t).tskctxb = _
        rw [(Spec.exit_restarts hcnt).1]
        show _ = CTXB.mk ((((a.exit t).core.tcb t).stk &&& _) - 272) ((a.exit t).core.tcb t).task
        rw [(Spec.exit_restarts hcnt).1]
    | idle _ hne hun =>
      rcases hwhy with hdm | ⟨hc, hr⟩
      · rw [hcore] at hdm
        rw [hcore', hun.dormant.mpr hdm] at hs
        cases hs
      · exact absurd ⟨hc, h.pre.runtsk_iff.mp hr⟩ hne
  · rintro ⟨hc, hr⟩ hcnt
    dsimp only at hc hr hcnt
    rw [h.pre.runtsk_iff] at hr
    rw [hcore] at hcnt
    cases hact with
    | started hon | queued hon =>
      subst hc
      exact absurd hon.choose_spec.1 id
    | exited _ _ ha' => exact h.restarted hc hr ha' hcnt
    | idle _ hne _ => exact absurd ⟨hc, hr⟩ hne
  · rintro ⟨hc, hr⟩ hcnt
    dsimp only at hc hr hcnt
    rw [h.pre.runtsk_iff] at hr
    rw [hcore] at hcnt
    cases hact with
    | started hon | queued hon =>
      subst hc
      exact absurd hon.choose_spec.1 id
    | exited _ _ ha' =>
      have hdm := h.exited ha' hcnt
      exact ⟨hdm, h.post.onNoQueue hdm⟩
    | idle _ hne _ => exact absurd ⟨hc, hr⟩ hne
  · intro hdm hon
    dsimp only at hdm hon
    have hdm' := hdm
    rw [hcore] at hdm'
    cases hact with
    | started _ hr _ htcb =>
      refine ⟨⟨hon, hr⟩, ?_, Or.inl hdm⟩
      dsimp only
      rw [hcore', htcb, Spec.activate_tcb]
    | queued _ _ hnd => exact absurd hdm' hnd
    | exited _ hr =>
      rw [hrdy hr] at hdm'
      cases hdm'
    | idle hni => exact absurd ⟨h.pre.activates_iff.mp hon, Or.inr hdm'⟩ hni
  · intro hdm hon
    dsimp only at hdm hon ⊢
    rw [h.pre.activates_iff] at hon
    rw [hcore] at hdm
    cases hact with
    | started hon' => exact absurd hon' hon
    | queued hon' => exact absurd hon' hon
    | exited _ hr =>
      rw [hrdy hr] at hdm
      cases hdm
    | idle _ _ hun =>
      have hdm' : (s'.core.tcb t).state = .dmt := by
        rw [hcore']
        exact hun.dormant.mpr hdm
      exact ⟨hdm', h.post.onNoQueue hdm'⟩

end

/-! ## Whole runs -/

/-- The requests taken, the starts, and the requests still queued. -/
structure ActInv (t : TskIx cfg) (tr : Trace cfg) (a : Spec.Model cfg) : Prop where
  lasts : (a.core.tcb t).state ≠ .noexs
  conserved : (tr.countP (Accepted t ·) : Int) = tr.countP (Started t ·) + (a.core.tcb t).actcnt
  nonneg : 0 ≤ (a.core.tcb t).actcnt
  le : (a.core.tcb t).actcnt ≤ cfg.tmaxActcnt
  steps : ∀ e ∈ tr, ActStep t e

/-- A step adds the requests that it takes and removes the starts. -/
theorem ActInv.cons {e : Event (Kernel cfg) (Label cfg)} (h : ActInv t tr a) (he : ActStep t e)
    (hlasts : (a'.core.tcb t).state ≠ .noexs)
    (hcnt : (a'.core.tcb t).actcnt + ((if Started t e then 1 else 0 : Nat) : Int) =
      (a.core.tcb t).actcnt + ((if Accepted t e then 1 else 0 : Nat) : Int))
    (hnn : 0 ≤ (a'.core.tcb t).actcnt) (hle : (a'.core.tcb t).actcnt ≤ cfg.tmaxActcnt) :
    ActInv t (e :: tr) a' := by
  refine ⟨hlasts, ?_, hnn, hle, fun e' he' => ?_⟩
  · have hcons := h.conserved
    rw [List.countP_cons, List.countP_cons]
    simp only [decide_eq_true_eq]
    omega
  · rcases List.mem_cons.mp he' with rfl | he'
    · exact he
    · exact h.steps e' he'

theorem ActInv.step {C : Kernel cfg → Call cfg → Prop} (h : ActInv t tr a)
    (hm : Moves C s a c r s' a') (hd : Spares t s c) : ActInv t (⟨s, (c, r), s'⟩ :: tr) a' := by
  have hstep := hm.actStep h.lasts hd
  have hcore := hm.pre.refines.core
  have hcore' := hm.post.refines.core
  have hnn := h.nonneg
  have hle := h.le
  cases hm.activity h.lasts hd with
  | started hon hr hdm htcb =>
    obtain ⟨hacc, hst⟩ := hstep.start (by dsimp only; rw [hcore]; exact hdm)
      (hm.pre.activates_iff.mpr hon)
    have hcnt : (a'.core.tcb t).actcnt = (a.core.tcb t).actcnt := by rw [htcb, Spec.activate_tcb]
    refine h.cons hstep (hm.lasts h.lasts hd) ?_ (by omega) (by omega)
    rw [if_pos hacc, if_pos hst]
    omega
  | queued hon hr hnd hlt htcb =>
    have hacc : Accepted t ⟨s, (c, r), s'⟩ := ⟨hm.pre.activates_iff.mpr hon, hr⟩
    have hst : ¬ Started t ⟨s, (c, r), s'⟩ := by
      rintro ⟨-, hdm | ⟨hc, -⟩⟩
      · dsimp only at hdm
        rw [hcore] at hdm
        exact hnd hdm
      · dsimp only at hc
        subst hc
        exact hon.choose_spec.1
    have hcnt : (a'.core.tcb t).actcnt = (a.core.tcb t).actcnt + 1 := by rw [htcb]
    refine h.cons hstep (hm.lasts h.lasts hd) ?_ (by omega) (by omega)
    rw [if_pos hacc, if_neg hst]
    omega
  | exited hc hr ha' =>
    have hacc : ¬ Accepted t ⟨s, (c, r), s'⟩ := by
      rintro ⟨hon, -⟩
      subst hc
      exact hon
    -- the task stops, unless a request is queued: then it starts again
    by_cases hcnt : (a.core.tcb t).actcnt = 0
    · have hst : ¬ Started t ⟨s, (c, r), s'⟩ := by
        rintro ⟨hrdy, -⟩
        dsimp only at hrdy
        rw [hm.exited ha' hcnt] at hrdy
        cases hrdy
      have hcnt' : (a'.core.tcb t).actcnt = (a.core.tcb t).actcnt := by
        rw [ha']
        show ((a.exit t).core.tcb t).actcnt = _
        rw [Spec.exit_dormant hcnt, Spec.dormant_tcb]
      refine h.cons hstep (hm.lasts h.lasts hd) ?_ (by omega) (by omega)
      rw [if_neg hacc, if_neg hst]
      omega
    · have hst := hm.restarted hc hr ha' hcnt
      have hcnt' : (a'.core.tcb t).actcnt = (a.core.tcb t).actcnt - 1 := by
        have hact := hst.actcnt
        dsimp only at hact
        rwa [hcore, hcore'] at hact
      refine h.cons hstep (hm.lasts h.lasts hd) ?_ (by omega) (by omega)
      rw [if_neg hacc, if_pos hst.started]
      omega
  | idle hni hne hun =>
    have hacc : ¬ Accepted t ⟨s, (c, r), s'⟩ := by
      rintro ⟨hon, hr⟩
      exact hni ⟨hm.pre.activates_iff.mp hon, Or.inl hr⟩
    have hst : ¬ Started t ⟨s, (c, r), s'⟩ := by
      rintro ⟨hrdy, hdm | ⟨hc, hr⟩⟩
      · dsimp only at hrdy hdm
        rw [hcore] at hdm
        rw [hcore', hun.dormant.mpr hdm] at hrdy
        cases hrdy
      · exact hne ⟨hc, hm.pre.runtsk_iff.mp hr⟩
    have hcnt := hun.actcnt
    refine h.cons hstep (hm.lasts h.lasts hd) ?_ (by omega) (by omega)
    rw [if_neg hacc, if_neg hst]
    omega

theorem ActInv.start {C : Kernel cfg → Call cfg → Prop} {tskid : Int} {pk : TCtsk}
    (hc : Spec.CreatesTsk tskid pk c r) (ht : getTcb tskid = .ok t) (h : Moves C s a c r s' a') :
    ActInv t [] a' := by
  have hcr := Spec.exec_createsTsk hc h.spec
  obtain ⟨-, hlasts⟩ := hcr.exists ht
  obtain ⟨u, hu, -, -, rfl⟩ := hcr
  obtain rfl := Except.ok.inj (ht.symm.trans hu)
  have hcnt : ((a.create t pk).core.tcb t).actcnt = 0 := by
    show ((taskMakeDormant t _).tcb t).actcnt = 0
    rw [taskMakeDormant_tcb_self]
    show (((a.deq .free t).setTcb t _).core.tcb t).actcnt = 0
    rw [Spec.Model.setTcb_tcb_self]
  exact ⟨hlasts, by simp [hcnt], by omega, by omega, by simp⟩

/-- **Activation requests are conserved.** In every run from the creation of `t` until it is
deleted, as many requests have returned `E_OK` as `t` has been started from its entry point and as
are queued, and no more than `TMAX_ACTCNT` are; and every step is as `ActStep` says. -/
theorem activations_conserved {tskid : Int} {pk : TCtsk} {s₀ s₁ : Kernel cfg} {l : Label cfg}
    (hc : Spec.CreatesTsk tskid pk l.1 l.2) (ht : getTcb tskid = .ok t)
    (h : SinceOf SoundCall (Spares t) s₀ l s₁ tr s) :
    (tr.countP (Accepted t ·) : Int) = tr.countP (Started t ·) + (s.core.tcb t).actcnt ∧
      (0 ≤ (s.core.tcb t).actcnt ∧ (s.core.tcb t).actcnt ≤ cfg.tmaxActcnt) ∧
      ∀ e ∈ tr, ActStep t e := by
  obtain ⟨a, hm, hi⟩ := h.lift (P := ActInv t) (fun _ _ h => h)
    (fun _ _ hm => .start hc ht hm) fun _ _ _ _ _ _ _ hm hi => hi.step hm hm.call.2
  rw [hm.refines.core]
  exact ⟨hi.conserved, ⟨hi.nonneg, hi.le⟩, hi.steps⟩

/-- A task is asked to start three times, ends, and starts anew. -/
theorem activations_conserved_restart : ∃ (tr : Trace smallConfig) (s : Kernel smallConfig),
    tr.countP (Accepted 0 ·) = 3 ∧ tr.countP (Started 0 ·) = 2 ∧
      (tr.countP (Accepted 0 ·) : Int) = tr.countP (Started 0 ·) + (s.core.tcb 0).actcnt := by
  obtain ⟨s₀, l, s₁, tr, s, h, hl, hr, h₁, h₂⟩ := exists_sinceOf (C := SoundCall) (D := Spares 0)
    (Q := fun _ l tr _ => l.2 = .er .ok ∧ tr.countP (Accepted 0 ·) = 3 ∧
      tr.countP (Started 0 ·) = 2) [] (.creTsk 1 (taskPk 1))
    [.actTsk 1, .actTsk 1, .iactTsk 1, .dispatch, .extTsk] zeroed (by decide +kernel)
  exact ⟨tr, s, h₁, h₂, (activations_conserved (Or.inl ⟨hl, hr⟩) rfl h).1⟩

end Ittrium
