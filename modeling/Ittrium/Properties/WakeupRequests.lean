import Ittrium.Properties.Activations
import Ittrium.Spec.Sleeping
import Mathlib.Algebra.Ring.Int.Defs

/-!
# Wake-up requests

* `Woken`, `sleepResult`, `cancelled` — a request is taken, a sleep ends, requests are cancelled
* `WakeStep` — what single steps do: timeouts, and requests during other waits
* `wakeups_conserved` — **as many requests have been taken as have ended a sleep, are still queued
  and have been cancelled**
-/

namespace Ittrium

open Infra

variable {cfg : Config} {t u : TskIx cfg} {tr : Trace cfg} {s s' : Kernel cfg}
  {a a' : Spec.Model cfg} {c : Call cfg} {r : Ret cfg} {e : Event (Kernel cfg) (Label cfg)}

/-! ## Requests, sleeps and cancellations -/

/-- `wup_tsk` or `iwup_tsk` of `t`. -/
def WakesUp (t : TskIx cfg) (s : Kernel cfg) : Call cfg → Prop
  | .wupTsk tskid | .iwupTsk tskid => (getTcbSelf tskid s).toOption = some t
  | _ => False

instance (t : TskIx cfg) (s : Kernel cfg) (c : Call cfg) : Decidable (WakesUp t s c) := by
  apply @Call.casesOn cfg (fun c => Decidable (WakesUp t s c)) c <;> intros <;>
    first | (change Decidable (_ = _); infer_instance) | exact .isFalse not_false

/-- A request to wake `t` up returns `E_OK`. -/
def Woken (t : TskIx cfg) (e : Event (Kernel cfg) (Label cfg)) : Prop :=
  WakesUp t e.pre e.label.1 ∧ e.label.2 = .er .ok

instance : DecidablePred (Woken t) := fun e =>
  inferInstanceAs (Decidable (WakesUp t e.pre e.label.1 ∧ e.label.2 = .er .ok))

/-- `slp_tsk` or `tslp_tsk` by `t`. -/
def GoesToSleep (t : TskIx cfg) (e : Event (Kernel cfg) (Label cfg)) : Prop :=
  (match e.label.1 with
    | .slpTsk | .tslpTsk _ => True
    | _ => False) ∧ e.pre.runtsk = .qnode t

instance (e : Event (Kernel cfg) (Label cfg)) : Decidable (GoesToSleep t e) := by
  unfold GoesToSleep
  cases e.label.1 <;> infer_instance

/-- The error code a call has returned. -/
def ercdOf : Ret cfg → Option ER
  | .er ercd => some ercd
  | _ => none

/-- The result of a `slp_tsk` or `tslp_tsk` of `t` that ends with this step: at once, or with the
task leaving its sleep, which gets what its control block then holds. -/
def sleepResult (t : TskIx cfg) (e : Event (Kernel cfg) (Label cfg)) : Option ER :=
  if GoesToSleep t e then ercdOf e.label.2
  else if (e.pre.core.tcb t).tskwait = .slp ∧ (e.post.core.tcb t).tskwait ≠ .slp then
    some (e.post.core.tcb t).ercd
  else none

/-- The number of requests for `t` the step has cancelled. -/
def cancelled (t : TskIx cfg) (e : Event (Kernel cfg) (Label cfg)) : Int :=
  match e.label with
  | (.canWup tskid, .wupcnt n) => if (getTcbSelf tskid e.pre).toOption = some t then n else 0
  | _ => 0

/-- What a step does about the wake-up requests of `t`. -/
structure WakeStep (t : TskIx cfg) (e : Event (Kernel cfg) (Label cfg)) : Prop where
  /-- A sleep ends with a wake-up or by timeout. -/
  ends : ∀ ercd, sleepResult t e = some ercd → ercd = .ok ∨ ercd = .tmout
  /-- A timeout takes no request. -/
  timeout : sleepResult t e = some .tmout →
    (e.post.core.tcb t).wupcnt = (e.pre.core.tcb t).wupcnt
  /-- A request does not end another wait. It is queued unless there are too many. -/
  waits : WakesUp t e.pre e.label.1 → (e.pre.core.tcb t).state.waiting →
    (e.pre.core.tcb t).tskwait ≠ .slp →
    (e.label.2 = .er .ok ∧ (e.pre.core.tcb t).wupcnt < cfg.tmaxActcnt ∧ e.post.core.tcb t =
        { e.pre.core.tcb t with wupcnt := (e.pre.core.tcb t).wupcnt + 1 }) ∨
      (e.label.2 = .er .qovr ∧ (e.pre.core.tcb t).wupcnt ≥ cfg.tmaxActcnt ∧
        e.post.core.tcb t = e.pre.core.tcb t)
  /-- The result of a sleep is kept until the task runs again. -/
  keeps : ¬ (e.pre.core.tcb t).state.waiting → e.pre.runtsk ≠ .qnode t →
    (e.post.core.tcb t).ercd = (e.pre.core.tcb t).ercd

/-! ## One step -/

theorem Models.toOption_getTcbSelf (h : Models s a) (tskid : Int) :
    (getTcbSelf tskid s).toOption = some t ↔ Spec.getTcbSelf tskid a = .ok t := by
  rw [h.refines.getTcbSelf]
  cases Spec.getTcbSelf tskid a <;> simp [Except.toOption]

theorem Models.wakesUp_iff (h : Models s a) : WakesUp t s c ↔ Spec.WakesOn t c a := by
  unfold Spec.WakesOn
  cases c with
  | wupTsk id => simpa [WakesUp, Spec.Call.isWup] using h.toOption_getTcbSelf id
  | iwupTsk id => simpa [WakesUp, Spec.Call.isWup] using h.toOption_getTcbSelf id
  | _ => simp [WakesUp, Spec.Call.isWup]

theorem Models.goesToSleep_iff (h : Models s a) :
    GoesToSleep t ⟨s, (c, r), s'⟩ ↔ Spec.Call.isSlp c ∧ a.runtsk = some t := by
  unfold GoesToSleep
  rw [h.runtsk_iff]
  cases c <;> simp [Spec.Call.isSlp]

theorem Models.cancelled_eq (h : Models s a) (hc : Spec.CancelsOn t c a) (n : Int) :
    cancelled t ⟨s, (c, .wupcnt n), s'⟩ = n := by
  obtain ⟨tskid, rfl, ht⟩ := hc
  exact if_pos ((h.toOption_getTcbSelf tskid).mpr ht)

theorem Models.cancelled_zero (h : Models s a) (hc : Spec.CancelsOn t c a → ∀ n, r ≠ .wupcnt n) :
    cancelled t ⟨s, (c, r), s'⟩ = 0 := by
  unfold cancelled
  split
  · next tskid n hl =>
    obtain ⟨rfl, rfl⟩ := Prod.mk.inj hl
    refine if_neg fun ht => ?_
    exact hc ⟨tskid, rfl, (h.toOption_getTcbSelf tskid).mp ht⟩ n rfl
  · rfl

/-- The call does not end `t`. -/
def NotEnds (t : TskIx cfg) (s : Kernel cfg) (c : Call cfg) : Prop :=
  ¬ (c = .extTsk ∧ s.runtsk = .qnode t) ∧ Spares t s c

instance (t : TskIx cfg) (s : Kernel cfg) (c : Call cfg) : Decidable (NotEnds t s c) :=
  inferInstanceAs (Decidable (_ ∧ _))

/-- The requests taken, the sleeps they have ended, those still queued, and those cancelled. -/
structure WakeInv (t : TskIx cfg) (tr : Trace cfg) (a : Spec.Model cfg) : Prop where
  lasts : (a.core.tcb t).state ≠ .noexs
  conserved : (tr.countP (Woken t ·) : Int) = tr.countP (sleepResult t · = some .ok) +
    (a.core.tcb t).wupcnt + (tr.map (cancelled t)).sum
  nonneg : 0 ≤ (a.core.tcb t).wupcnt
  le : (a.core.tcb t).wupcnt ≤ cfg.tmaxActcnt
  /-- While a task sleeps there are no requests, and the result is the one of a timeout. -/
  asleep : (a.core.tcb t).tskwait = .slp →
    (a.core.tcb t).wupcnt = 0 ∧ (a.core.tcb t).ercd = .tmout
  steps : ∀ e ∈ tr, WakeStep t e

section

variable {C : Kernel cfg → Call cfg → Prop}

theorem Moves.wakeup (h : Moves C s a c r s' a') (ht : (a.core.tcb t).state ≠ .noexs)
    (hd : NotEnds t s c) : Spec.Wakeup t a c r a' := by
  refine Spec.exec_wakeup h.pre.inv h.spec ht ?_ ?_
  · rintro ⟨rfl, hr⟩
    exact hd.1 ⟨rfl, h.pre.runtsk_iff.mpr hr⟩
  · rintro tskid rfl hid
    rw [← h.pre.runtsk_iff]
    exact hd.2 (by rw [hid]; rfl)

/-- What the step `e` from `a` to `a'` adds to the balance. -/
structure Balances (t : TskIx cfg) (e : Event (Kernel cfg) (Label cfg)) (a a' : Spec.Model cfg) :
    Prop where
  balance : ((if Woken t e then 1 else 0 : Nat) : Int) + (a.core.tcb t).wupcnt =
    ((if sleepResult t e = some .ok then 1 else 0 : Nat) : Int) + (a'.core.tcb t).wupcnt +
      cancelled t e
  nonneg : 0 ≤ (a'.core.tcb t).wupcnt
  le : (a'.core.tcb t).wupcnt ≤ cfg.tmaxActcnt
  asleep : (a'.core.tcb t).tskwait = .slp →
    (a'.core.tcb t).wupcnt = 0 ∧ (a'.core.tcb t).ercd = .tmout
  ends : ∀ ercd, sleepResult t e = some ercd → ercd = .ok ∨ ercd = .tmout
  timeout : sleepResult t e = some .tmout → (a'.core.tcb t).wupcnt = (a.core.tcb t).wupcnt

theorem Moves.woken_iff (h : Moves C s a c r s' a') :
    Woken t ⟨s, (c, r), s'⟩ ↔ Spec.WakesOn t c a ∧ r = .er .ok :=
  and_congr_left fun _ => h.pre.wakesUp_iff

/-- A sleep that ends without its task running. -/
theorem Moves.sleepResult_eq (h : Moves C s a c r s' a')
    (hn : ¬ (Spec.Call.isSlp c ∧ a.runtsk = some t)) :
    sleepResult t ⟨s, (c, r), s'⟩ =
      if (a.core.tcb t).tskwait = .slp ∧ (a'.core.tcb t).tskwait ≠ .slp then
        some (a'.core.tcb t).ercd
      else none := by
  unfold sleepResult
  rw [if_neg fun hg => hn (h.pre.goesToSleep_iff.mp hg)]
  dsimp only
  rw [h.pre.refines.core, h.post.refines.core]

theorem Moves.sleepResult_call (h : Moves C s a c r s' a') (hc : Spec.Call.isSlp c)
    (hr : a.runtsk = some t) :
    sleepResult t ⟨s, (c, r), s'⟩ = ercdOf r :=
  if_pos (h.pre.goesToSleep_iff.mpr ⟨hc, hr⟩)

/-- **Every step keeps the balance.** -/
theorem Moves.balances (h : Moves C s a c r s' a') (hi : WakeInv t tr a) (hd : NotEnds t s c) :
    Balances t ⟨s, (c, r), s'⟩ a a' := by
  have hst := h.pre.inv.toSettled
  have hnn := hi.nonneg
  have hle := hi.le
  -- a call is of one kind only
  have hkind : (Spec.Call.isSlp c → ¬ Spec.WakesOn t c a ∧ ¬ Spec.CancelsOn t c a) ∧
      (Spec.WakesOn t c a → ¬ Spec.Call.isSlp c ∧ ¬ Spec.CancelsOn t c a) ∧
      (Spec.CancelsOn t c a → ¬ Spec.Call.isSlp c ∧ ¬ Spec.WakesOn t c a) := by
    unfold Spec.WakesOn Spec.CancelsOn
    cases c <;> simp [Spec.Call.isSlp, Spec.Call.isWup]
  have hcan : ¬ Spec.CancelsOn t c a → cancelled t ⟨s, (c, r), s'⟩ = 0 := fun hc =>
    h.pre.cancelled_zero fun hc' => absurd hc' hc
  cases h.wakeup hi.lasts hd with
  | woken hon hr hsl htcb =>
    obtain ⟨hns, hnc⟩ := hkind.2.1 hon
    have hres : sleepResult t ⟨s, (c, r), s'⟩ = some .ok := by
      rw [h.sleepResult_eq fun hx => hns hx.1, htcb]
      exact if_pos ⟨hsl.2, by simp [Spec.released]⟩
    have hw : Woken t ⟨s, (c, r), s'⟩ := h.woken_iff.mpr ⟨hon, hr⟩
    have hcnt : (a'.core.tcb t).wupcnt = (a.core.tcb t).wupcnt := by rw [htcb]; rfl
    refine ⟨?_, ?_, ?_, ?_, ?_, ?_⟩
    · rw [if_pos hw, if_pos hres, hcan hnc, hcnt]
      omega
    · rw [hcnt]; exact hnn
    · rw [hcnt]; exact hle
    · rw [htcb]
      exact nofun
    · rw [hres]
      rintro _ ⟨⟩
      exact Or.inl rfl
    · rw [hres]
      exact nofun
  | full hon hr hsl hf htcb =>
    obtain ⟨hns, hnc⟩ := hkind.2.1 hon
    have hres : sleepResult t ⟨s, (c, r), s'⟩ = none := by
      rw [h.sleepResult_eq fun hx => hns hx.1, htcb]
      exact if_neg fun hx => hx.2 hx.1
    have hw : ¬ Woken t ⟨s, (c, r), s'⟩ := fun hw => by
      have := (h.woken_iff.mp hw).2
      rw [hr] at this
      cases this
    refine ⟨?_, ?_, ?_, ?_, ?_, ?_⟩
    · rw [if_neg hw, hres, hcan hnc, htcb]
      simp
    · rw [htcb]; exact hnn
    · rw [htcb]; exact hle
    · rw [htcb]; exact hi.asleep
    · rw [hres]
      exact nofun
    · rw [hres]
      exact nofun
  | counted hon hr hsl hf htcb =>
    obtain ⟨hns, hnc⟩ := hkind.2.1 hon
    have hslp : (a'.core.tcb t).tskwait = (a.core.tcb t).tskwait := by rw [htcb]
    have hres : sleepResult t ⟨s, (c, r), s'⟩ = none := by
      rw [h.sleepResult_eq fun hx => hns hx.1, hslp]
      exact if_neg fun hx => hx.2 hx.1
    have hw : Woken t ⟨s, (c, r), s'⟩ := h.woken_iff.mpr ⟨hon, hr⟩
    have hcnt : (a'.core.tcb t).wupcnt = (a.core.tcb t).wupcnt + 1 := by rw [htcb]
    refine ⟨?_, ?_, ?_, ?_, ?_, ?_⟩
    · rw [if_pos hw, hres, hcan hnc, hcnt]
      simp
      omega
    · rw [hcnt]; omega
    · rw [hcnt]; omega
    · rw [hslp]
      -- a task that sleeps is released instead
      intro hsl'
      exact absurd ⟨((hst.task t).tskwait hi.lasts |>.mp (by rw [hsl']; simp)).1, hsl'⟩ hsl
    · rw [hres]
      exact nofun
    · rw [hres]
      exact nofun
  | taken hs hr hret hpos htcb =>
    obtain ⟨hno, hnc⟩ := hkind.1 hs
    have hres : sleepResult t ⟨s, (c, r), s'⟩ = some .ok := by
      rw [h.sleepResult_call hs hr, hret]
      rfl
    have hw : ¬ Woken t ⟨s, (c, r), s'⟩ := fun hw => hno (h.woken_iff.mp hw).1
    have hcnt : (a'.core.tcb t).wupcnt = (a.core.tcb t).wupcnt - 1 := by rw [htcb]
    refine ⟨?_, ?_, ?_, ?_, ?_, ?_⟩
    · rw [if_neg hw, if_pos hres, hcan hnc, hcnt]
      omega
    · rw [hcnt]; omega
    · rw [hcnt]; omega
    · rw [htcb]
      intro hsl
      exact absurd hsl (hst.not_asleep (h.pre.inv.runtsk t hr))
    · rw [hres]
      rintro _ ⟨⟩
      exact Or.inl rfl
    · rw [hres]
      exact nofun
  | polled hs hr hret hpos htcb =>
    obtain ⟨hno, hnc⟩ := hkind.1 hs
    have hres : sleepResult t ⟨s, (c, r), s'⟩ = some .tmout := by
      rw [h.sleepResult_call hs hr, hret]
      rfl
    have hw : ¬ Woken t ⟨s, (c, r), s'⟩ := fun hw => hno (h.woken_iff.mp hw).1
    have hcnt : (a'.core.tcb t).wupcnt = (a.core.tcb t).wupcnt := by rw [htcb]
    refine ⟨?_, ?_, ?_, ?_, ?_, ?_⟩
    · rw [if_neg hw, hres, hcan hnc, hcnt]
      simp
    · rw [hcnt]; exact hnn
    · rw [hcnt]; exact hle
    · rw [htcb]
      intro hsl
      exact absurd hsl (hst.not_asleep (h.pre.inv.runtsk t hr))
    · rw [hres]
      rintro _ ⟨⟩
      exact Or.inr rfl
    · rw [hcnt]
      exact fun _ => rfl
  | asleep hs hr hret hpos htcb =>
    obtain ⟨m, htcb⟩ := htcb
    obtain ⟨hno, hnc⟩ := hkind.1 hs
    have hres : sleepResult t ⟨s, (c, r), s'⟩ = none := by
      rw [h.sleepResult_call hs hr, hret]
      rfl
    have hw : ¬ Woken t ⟨s, (c, r), s'⟩ := fun hw => hno (h.woken_iff.mp hw).1
    have hcnt : (a'.core.tcb t).wupcnt = (a.core.tcb t).wupcnt := by rw [htcb]
    refine ⟨?_, ?_, ?_, ?_, ?_, ?_⟩
    · rw [if_neg hw, hres, hcan hnc, hcnt]
      simp
    · rw [hcnt]; exact hnn
    · rw [hcnt]; exact hle
    · rw [hcnt, htcb]
      exact fun _ => ⟨by omega, rfl⟩
    · rw [hres]
      exact nofun
    · rw [hres]
      exact nofun
  | cancelled hc hret htcb =>
    obtain ⟨hns, hno⟩ := hkind.2.2 hc
    have hslp : (a'.core.tcb t).tskwait = (a.core.tcb t).tskwait := by rw [htcb]
    have hres : sleepResult t ⟨s, (c, r), s'⟩ = none := by
      rw [h.sleepResult_eq fun hx => hns hx.1, hslp]
      exact if_neg fun hx => hx.2 hx.1
    have hw : ¬ Woken t ⟨s, (c, r), s'⟩ := fun hw => hno (h.woken_iff.mp hw).1
    have hcnt : (a'.core.tcb t).wupcnt = 0 := by rw [htcb]
    refine ⟨?_, ?_, ?_, ?_, ?_, ?_⟩
    · rw [if_neg hw, hres, hret, h.pre.cancelled_eq hc, hcnt]
      simp
    · rw [hcnt]
    · rw [hcnt]; omega
    · rw [htcb]
      exact fun hsl => ⟨rfl, (hi.asleep hsl).2⟩
    · rw [hres]
      exact nofun
    · rw [hres]
      exact nofun
  | idle hno hns hnc hun =>
    have hw : ¬ Woken t ⟨s, (c, r), s'⟩ := fun hw => by
      obtain ⟨hon, hr⟩ := h.woken_iff.mp hw
      exact (hno hon).2 hr
    have hzero : cancelled t ⟨s, (c, r), s'⟩ = 0 := h.pre.cancelled_zero hnc
    -- a sleep that ends now does so by timeout
    have hres : ∀ ercd, sleepResult t ⟨s, (c, r), s'⟩ = some ercd → ercd = .tmout := by
      intro ercd he
      rw [h.sleepResult_eq hns] at he
      split at he
      · next hsl =>
        obtain rfl := Option.some.inj he
        rw [hun.result hsl.1]
        exact (hi.asleep hsl.1).2
      · cases he
    have hne : ¬ sleepResult t ⟨s, (c, r), s'⟩ = some .ok := fun he => by cases hres _ he
    refine ⟨?_, ?_, ?_, ?_, ?_, ?_⟩
    · rw [if_neg hw, if_neg hne, hzero, hun.wupcnt]
      omega
    · rw [hun.wupcnt]; exact hnn
    · rw [hun.wupcnt]; exact hle
    · rw [hun.wupcnt]
      intro hsl
      obtain ⟨h₁, h₂⟩ := hi.asleep (hun.asleep hsl)
      exact ⟨h₁, (hun.result (hun.asleep hsl)).trans h₂⟩
    · exact fun ercd he => Or.inr (hres ercd he)
    · rw [hun.wupcnt]
      exact fun _ => rfl

/-- A request for a task that waits, but does not sleep. -/
theorem Moves.waits (h : Moves C s a c r s' a') (hi : WakeInv t tr a) (hd : NotEnds t s c)
    (hon : WakesUp t s c) (hw : (a.core.tcb t).state.waiting) (hn : (a.core.tcb t).tskwait ≠ .slp) :
    (r = .er .ok ∧ (a.core.tcb t).wupcnt < cfg.tmaxActcnt ∧
        a'.core.tcb t = { a.core.tcb t with wupcnt := (a.core.tcb t).wupcnt + 1 }) ∨
      (r = .er .qovr ∧ (a.core.tcb t).wupcnt ≥ cfg.tmaxActcnt ∧ a'.core.tcb t = a.core.tcb t) := by
  have hon := h.pre.wakesUp_iff.mp hon
  have hrun : a.runtsk ≠ some t := by
    intro hr
    rw [h.pre.inv.runtsk t hr] at hw
    simp [Stat.waiting_iff] at hw
  cases h.wakeup hi.lasts hd with
  | woken _ _ hsl => exact absurd hsl.2 hn
  | full _ hr _ hf htcb => exact Or.inr ⟨hr, hf, htcb⟩
  | counted _ hr _ hf htcb => exact Or.inl ⟨hr, hf, htcb⟩
  | taken _ hr | polled _ hr | asleep _ hr => exact absurd hr hrun
  | cancelled hc =>
    obtain ⟨id, rfl, -⟩ := hc
    exact hon.choose_spec.1.elim
  | idle hno =>
    rw [(hno hon).1] at hw
    simp [Stat.waiting_iff] at hw

theorem WakeInv.step (hi : WakeInv t tr a) (h : Moves C s a c r s' a') (hd : NotEnds t s c) :
    WakeInv t (⟨s, (c, r), s'⟩ :: tr) a' := by
  have hb := h.balances hi hd
  have hcore := h.pre.refines.core
  have hcore' := h.post.refines.core
  have hbal := hb.balance
  have hcons := hi.conserved
  refine ⟨h.lasts hi.lasts hd.2, ?_, hb.nonneg, hb.le, hb.asleep, ?_⟩
  · rw [List.countP_cons, List.countP_cons, List.map_cons, List.sum_cons]
    simp only [decide_eq_true_eq]
    omega
  · intro e he
    rcases List.mem_cons.mp he with rfl | he
    · refine ⟨hb.ends, ?_, ?_, ?_⟩
      · dsimp only
        rw [hcore, hcore']
        exact hb.timeout
      · dsimp only
        rw [hcore, hcore']
        exact h.waits hi hd
      · dsimp only
        intro hw hr
        rw [hcore, hcore'] at *
        exact ((Spec.exec_frame h.pre.inv h.sound _ h.spec).ercd t hw
          fun hr' => hr (h.pre.runtsk_iff.mpr hr')).2
    · exact hi.steps e he

/-- A task that has just been started has no requests. -/
theorem WakeInv.start (h : Moves C s a c r s' a') (hD : Spec.DormantClear a)
    (hs : Started t ⟨s, (c, r), s'⟩) : WakeInv t [] a' := by
  have hst := h.pre.inv.toSettled
  obtain ⟨hrdy, hwhy⟩ := hs
  dsimp only at hrdy hwhy
  rw [h.post.refines.core] at hrdy
  have hlasts : (a'.core.tcb t).state ≠ .noexs := by simp [hrdy]
  have hzero : (a'.core.tcb t).wupcnt = 0 := by
    -- it was dormant and had no requests, or has ended and is started anew
    rcases hwhy with hdm | ⟨rfl, hr⟩
    · rw [h.pre.refines.core] at hdm
      have hact : Spec.Activity t a c r a' := by
        refine Spec.exec_activity h.pre.inv h.spec (by simp [hdm]) ?_
        rintro tskid rfl hid
        rcases Spec.delTsk_cases h.spec with rfl | ⟨-, u, hu, -, rfl⟩
        · rw [hdm] at hrdy
          cases hrdy
        · obtain rfl := Except.ok.inj (hid.symm.trans hu)
          rw [show ((a.delete t).dispatch.core.tcb t).state = _ from Spec.Model.delete_tcb t a] at hrdy
          cases hrdy
      cases hact with
      | started _ _ _ htcb =>
        rw [htcb, Spec.activate_tcb]
        exact hD t hdm
      | queued _ _ hnd => exact absurd hdm hnd
      | exited _ hr =>
        rw [h.pre.inv.runtsk t hr] at hdm
        cases hdm
      | idle _ _ hun =>
        rw [hun.dormant.mpr hdm] at hrdy
        cases hrdy
    · obtain ⟨u, hu, rfl⟩ := Spec.exec_extTsk h.spec
      obtain rfl : u = t := Option.some.inj (hu.symm.trans (h.pre.runtsk_iff.mp hr))
      show ((a.exit u).core.tcb u).wupcnt = 0
      by_cases hcnt : (a.core.tcb u).actcnt = 0
      · rw [Spec.exit_dormant hcnt, Spec.dormant_tcb]
      · rw [(Spec.exit_restarts hcnt).1]
  exact ⟨hlasts, by simp [hzero], by omega, by omega,
    fun hsl => absurd hsl (h.post.inv.toSettled.not_asleep hrdy), by simp⟩

end

/-! ## Whole runs -/

/-- Dormant tasks have no wake-up requests, in every state reached. -/
theorem RunOf.dormantClear (h : RunOf SoundCall tr s) (ht : (s.core.tcb t).state = .dmt) :
    (s.core.tcb t).wupcnt = 0 := by
  have hstart : ∀ m : Kernel cfg, Spec.DormantClear (Refine.initial m) := by
    intro m u hu
    have htask := (Refine.initial_inv m).toSettled.task u
    have hfree : u ∈ (Refine.initial m).queue .free := List.mem_finRange u
    rw [htask.free.mp hfree] at hu
    cases hu
  obtain ⟨a, hm, hD⟩ := h.lift (P := fun _ a => Spec.DormantClear a) (fun _ _ h => h) hstart
    fun _ _ _ _ _ _ _ hm hD => Spec.exec_dormantClear hm.pre.inv hD hm.spec
  rw [hm.refines.core] at ht ⊢
  exact hD t ht

/-- **Wake-up requests are neither lost nor invented.** -/
theorem wakeups_conserved {s₀ s₁ : Kernel cfg} {l : Label cfg}
    (h : SinceOf SoundCall (NotEnds t) s₀ l s₁ tr s) (hs : Started t ⟨s₀, l, s₁⟩) :
    (tr.countP (Woken t ·) : Int) = tr.countP (sleepResult t · = some .ok) +
        (s.core.tcb t).wupcnt + (tr.map (cancelled t)).sum ∧
      ((s.core.tcb t).tskwait = .slp → (s.core.tcb t).wupcnt = 0) ∧
      (0 ≤ (s.core.tcb t).wupcnt ∧ (s.core.tcb t).wupcnt ≤ cfg.tmaxActcnt) ∧
      ∀ e ∈ tr, WakeStep t e := by
  obtain ⟨tr₀, h₀⟩ := h.before
  have hclear : ∀ a₀, Models s₀ a₀ → Spec.DormantClear a₀ := by
    intro a₀ hm u hu
    rw [← hm.refines.core] at hu ⊢
    exact h₀.dormantClear hu
  obtain ⟨a, hm, hi⟩ := h.lift (P := WakeInv t) (fun _ _ h => h)
    (fun a₀ a₁ hm => .start hm (hclear a₀ hm.pre) hs)
    fun _ _ _ _ _ _ _ hm hi => hi.step hm hm.call.2
  rw [hm.refines.core]
  exact ⟨hi.conserved, fun hsl => (hi.asleep hsl).1, ⟨hi.nonneg, hi.le⟩, hi.steps⟩

/-- A dormant task that is asked to start is started. -/
theorem SinceOf.started {D : Kernel cfg → Call cfg → Prop} {s₀ s₁ : Kernel cfg} {l : Label cfg}
    (h : SinceOf SoundCall D s₀ l s₁ tr s) (hd : (s₀.core.tcb t).state = .dmt)
    (hact : Activates t s₀ l.1) : Started t ⟨s₀, l, s₁⟩ := by
  obtain ⟨tr₀, h₀⟩ := h.before
  obtain ⟨a₀, a₁, hm⟩ := h₀.moves (fun _ _ h => h) h.step
  have hd' : (a₀.core.tcb t).state = .dmt := by rwa [← hm.pre.refines.core]
  have hsp : Spares t s₀ l.1 := by
    obtain ⟨c, r⟩ := l
    cases c <;> trivial
  exact ((hm.actStep (by simp [hd']) hsp).start hd hact).2

/-- One request is taken at once, one ends a sleep, one is cancelled, and one is still queued. -/
theorem wakeups_conserved_four : ∃ (tr : Trace smallConfig) (s : Kernel smallConfig),
    tr.countP (Woken 0 ·) = 4 ∧ tr.countP (sleepResult 0 · = some .ok) = 2 ∧
      (tr.map (cancelled 0)).sum = 1 ∧
      (tr.countP (Woken 0 ·) : Int) = tr.countP (sleepResult 0 · = some .ok) +
        (s.core.tcb 0).wupcnt + (tr.map (cancelled 0)).sum := by
  obtain ⟨s₀, l, s₁, tr, s, h, hl, hd, h₁, h₂, h₃⟩ := exists_sinceOf (C := SoundCall)
    (D := NotEnds 0)
    (Q := fun s₀ _ tr _ => (s₀.core.tcb 0).state = .dmt ∧ tr.countP (Woken 0 ·) = 4 ∧
      tr.countP (sleepResult 0 · = some .ok) = 2 ∧ (tr.map (cancelled 0)).sum = 1)
    [.creTsk 1 (taskPk 1)] (.actTsk 1)
    [.dispatch, .iwupTsk 1, .slpTsk, .tslpTsk 5, .timerHandler, .iwupTsk 1, .dispatch, .wupTsk 1,
      .canWup 1, .wupTsk 1] zeroed (by decide +kernel)
  have hs := h.started (t := 0) hd (by rw [hl]; rfl)
  exact ⟨tr, s, h₁, h₂, h₃, (wakeups_conserved h hs).1⟩

end Ittrium
