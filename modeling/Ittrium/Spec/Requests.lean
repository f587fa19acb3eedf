import Ittrium.Spec.Counts

/-!
# Requests to start and to wake up

What the calls do that count, one constructor for each way they go, with the condition, the result
and the state of each.

* `ActTsk` — `act_tsk` and `iact_tsk`
* `WupTsk`, `SlpTsk`, `CanWup` — wake-up requests, and the calls that take or cancel them
* `exit_dormant`, `exit_restarts` — what `ext_tsk` does without and with a queued activation
* `exec_activity` — **what each step does about the activations of a task**
-/

namespace Ittrium.Spec

open Infra

variable {cfg : Config} {a a' : Model cfg} {t u : TskIx cfg} {c : Call cfg} {r : Ret cfg}
  {tskid : Int} {tmout : TMO}

/-! ## The task an ID stands for -/

theorem badTskid_of_ok (h : getTcbSelf tskid a = .ok t) : badTskid tskid a = false := by
  unfold getTcbSelf at h
  split at h
  · next hself =>
    have hr := runTcb_eq h
    subst hself
    have hpos : ¬ tskSelf > (cfg.tmaxTskid : Int) + cfg.trsvTskid := by
      unfold tskSelf
      omega
    simp [badTskid, hr, hpos]
  · next hself =>
    obtain ⟨-, -, hle⟩ := id_of_entryOf h
    have hle : ¬ tskid > (cfg.tmaxTskid : Int) + cfg.trsvTskid := by
      unfold Config.tnumTskid at hle
      omega
    simp [badTskid, hself, hle]

/-! ## Activation -/

/-- The ways an activation goes. -/
inductive ActTsk (tskid : Int) (a : Model cfg) : Ret cfg → Model cfg → Prop where
  | refused {e : ER} : (∀ t, getTcbSelf tskid a = .ok t → (a.core.tcb t).state = .noexs) →
      e ≠ .ok → e ≠ .qovr → ActTsk tskid a (.er e) a
  | full {t : TskIx cfg} : getTcbSelf tskid a = .ok t → (a.core.tcb t).state ≠ .noexs →
      (a.core.tcb t).state ≠ .dmt → (a.core.tcb t).actcnt ≥ cfg.tmaxActcnt →
      ActTsk tskid a (.er .qovr) a
  | queued {t : TskIx cfg} : getTcbSelf tskid a = .ok t → (a.core.tcb t).state ≠ .noexs →
      (a.core.tcb t).state ≠ .dmt → (a.core.tcb t).actcnt < cfg.tmaxActcnt →
      ActTsk tskid a (.er .ok) (a.setTcb t fun tcb => { tcb with actcnt := tcb.actcnt + 1 })
  | started {t : TskIx cfg} : getTcbSelf tskid a = .ok t → (a.core.tcb t).state = .dmt →
      ActTsk tskid a (.er .ok) (a.activate t)

theorem actTsk_cases : Ensures (_actTsk tskid a) fun v => ActTsk tskid a v.2 v.1 := by
  unfold _actTsk
  refine .ite (fun hbad => .ok (.refused (fun t ht => ?_) (by simp) (by simp))) fun _ => ?_
  · rw [badTskid_of_ok ht] at hbad
    cases hbad
  refine .bind' fun t ht => .ite (fun hn => .ok (.refused (fun u hu => ?_) (by simp) (by simp)))
    fun hn => ?_
  · obtain rfl := Except.ok.inj (ht.symm.trans hu)
    exact hn
  refine .ite (fun hd => ?_) fun hd => .ok (.started ht (not_not.mp hd))
  exact .ite (fun hf => .ok (.full ht hn hd hf)) fun hf => .ok (.queued ht hn hd (not_le.mp hf))

theorem dispatchIfOk_ok {x : Outcome cfg} (h : dispatchIfOk x = .ok (a', r)) :
    ∃ b, x = .ok (b, r) ∧ UpToDispatch b a' := by
  cases x with
  | error e => cases h
  | ok v =>
    obtain ⟨b, r'⟩ := v
    have h := Except.ok.inj h
    obtain rfl : r' = r := congrArg Prod.snd h
    refine ⟨b, rfl, ?_⟩
    obtain rfl : (if r' = .er .ok then b.dispatch else b) = a' := congrArg Prod.fst h
    split
    · exact Or.inr rfl
    · exact Or.inl rfl

/-- `act_tsk` or `iact_tsk` of an ID. -/
def Call.isAct (tskid : Int) : Call cfg → Prop
  | .actTsk id | .iactTsk id => id = tskid
  | _ => False

/-- **What an activation does.** -/
theorem exec_actTsk (hc : Call.isAct tskid c) (he : exec c a = .ok (a', r)) :
    ∃ b, ActTsk tskid a r b ∧ UpToDispatch b a' := by
  cases c with
  | actTsk id =>
    obtain rfl : id = tskid := hc
    obtain ⟨b, hb, hd⟩ := dispatchIfOk_ok he
    exact ⟨b, actTsk_cases _ hb, hd⟩
  | iactTsk id =>
    obtain rfl : id = tskid := hc
    exact ⟨a', actTsk_cases _ he, Or.inl rfl⟩
  | _ => exact hc.elim

/-! ## Wake-up requests -/

/-- The ways a wake-up request goes. -/
inductive WupTsk (tskid : Int) (a : Model cfg) : Ret cfg → Model cfg → Prop where
  | refused {e : ER} : (∀ t, getTcbSelf tskid a = .ok t →
        (a.core.tcb t).state = .noexs ∨ (a.core.tcb t).state = .dmt) →
      e ≠ .ok → WupTsk tskid a (.er e) a
  | woken {t : TskIx cfg} : getTcbSelf tskid a = .ok t → (a.core.tcb t).state.waiting →
      (a.core.tcb t).tskwait = .slp → WupTsk tskid a (.er .ok) (a.release t .ok)
  | full {t : TskIx cfg} : getTcbSelf tskid a = .ok t →
      ¬ ((a.core.tcb t).state.waiting ∧ (a.core.tcb t).tskwait = .slp) →
      (a.core.tcb t).wupcnt ≥ cfg.tmaxActcnt → WupTsk tskid a (.er .qovr) a
  | counted {t : TskIx cfg} : getTcbSelf tskid a = .ok t → (a.core.tcb t).state ≠ .dmt →
      ¬ ((a.core.tcb t).state.waiting ∧ (a.core.tcb t).tskwait = .slp) →
      (a.core.tcb t).wupcnt < cfg.tmaxActcnt →
      WupTsk tskid a (.er .ok) (a.setTcb t fun tcb => { tcb with wupcnt := tcb.wupcnt + 1 })

theorem wupTsk_cases : Ensures (_wupTsk tskid a) fun v => WupTsk tskid a v.2 v.1 := by
  unfold _wupTsk
  refine .ite (fun hbad => .ok (.refused (fun t ht => ?_) (by simp))) fun _ => .bind' fun t ht => ?_
  · rw [badTskid_of_ok ht] at hbad
    cases hbad
  have honly : ∀ {P : TskIx cfg → Prop}, P t → ∀ u, getTcbSelf tskid a = .ok u → P u := by
    intro P hP u hu
    obtain rfl := Except.ok.inj (ht.symm.trans hu)
    exact hP
  refine .ite (fun hn => .ok (.refused (honly (Or.inl hn)) (by simp))) fun _ => ?_
  refine .ite (fun hd => .ok (.refused (honly (Or.inr hd)) (by simp))) fun hd => ?_
  refine .ite (fun hs => .ok (.woken ht hs.1 hs.2)) fun hs => ?_
  exact .ite (fun hf => .ok (.full ht hs hf)) fun hf => .ok (.counted ht hd hs (not_le.mp hf))

/-- `wup_tsk` or `iwup_tsk` of an ID. -/
def Call.isWup (tskid : Int) : Call cfg → Prop
  | .wupTsk id | .iwupTsk id => id = tskid
  | _ => False

/-- **What a wake-up request does.** -/
theorem exec_wupTsk (hc : Call.isWup tskid c) (he : exec c a = .ok (a', r)) :
    ∃ b, WupTsk tskid a r b ∧ UpToDispatch b a' := by
  cases c with
  | wupTsk id =>
    obtain rfl : id = tskid := hc
    obtain ⟨b, hb, hd⟩ := dispatchIfOk_ok he
    exact ⟨b, wupTsk_cases _ hb, hd⟩
  | iwupTsk id =>
    obtain rfl : id = tskid := hc
    exact ⟨a', wupTsk_cases _ he, Or.inl rfl⟩
  | _ => exact hc.elim

/-- The ways a sleep begins, or does not. -/
inductive SlpTsk (t : TskIx cfg) (tmout : TMO) (a : Model cfg) : Ret cfg → Model cfg → Prop where
  | taken : 0 < (a.core.tcb t).wupcnt → SlpTsk t tmout a (.er .ok)
      (a.setTcb t fun tcb => { tcb with wupcnt := tcb.wupcnt - 1, ercd := .ok })
  | polled : ¬ 0 < (a.core.tcb t).wupcnt → SlpTsk t tmout a (.er .tmout)
      (a.setTcb t fun tcb => { tcb with ercd := .tmout })
  | asleep : ¬ 0 < (a.core.tcb t).wupcnt → SlpTsk t tmout a .blocked
      ((a.setTcb t fun tcb => { tcb with ercd := .tmout }).sleep t .slp tmout)

theorem slpTsk_cases : Ensures (_slpTsk tmout a) fun v =>
    ∃ t, a.runtsk = some t ∧ ∃ b, SlpTsk t tmout a v.2 b ∧ v.1 = b.dispatch := by
  unfold _slpTsk
  refine .bind' fun t ht => ?_
  have hr := runTcb_eq ht
  refine .ite (fun hw => .ok ⟨t, hr, _, .taken hw, rfl⟩) fun hw => ?_
  exact .ite (fun _ => .ok ⟨t, hr, _, .asleep hw, rfl⟩) fun _ => .ok ⟨t, hr, _, .polled hw, rfl⟩

/-- `slp_tsk` or `tslp_tsk`. -/
def Call.isSlp : Call cfg → Prop
  | .slpTsk | .tslpTsk _ => True
  | _ => False

/-- **What a sleep does.** -/
theorem exec_slpTsk (hc : Call.isSlp c) (he : exec c a = .ok (a', r)) :
    ∃ t tmout, a.runtsk = some t ∧ ∃ b, SlpTsk t tmout a r b ∧ UpToDispatch b a' := by
  have hex : ∀ {tmout}, _slpTsk tmout a = .ok (a', r) → ∃ t tmout, a.runtsk = some t ∧
      ∃ b, SlpTsk t tmout a r b ∧ UpToDispatch b a' := by
    intro tmout h
    obtain ⟨t, hr, b, hb, hd⟩ := slpTsk_cases _ h
    exact ⟨t, tmout, hr, b, hb, Or.inr hd⟩
  cases c with
  | slpTsk => exact hex he
  | tslpTsk tmout => exact hex he
  | _ => exact hc.elim

/-- The ways a cancellation goes. -/
inductive CanWup (tskid : Int) (a : Model cfg) : Ret cfg → Model cfg → Prop where
  | refused {e : ER} : CanWup tskid a (.er e) a
  | cancelled {t : TskIx cfg} : getTcbSelf tskid a = .ok t →
      CanWup tskid a (.wupcnt (a.core.tcb t).wupcnt)
        (a.setTcb t fun tcb => { tcb with wupcnt := 0 })

/-- **What a cancellation does.** -/
theorem exec_canWup (he : exec (.canWup tskid) a = .ok (a', r)) : CanWup tskid a r a' := by
  suffices h : Ensures (canWup tskid a) fun v => CanWup tskid a v.2 v.1 from h _ he
  unfold canWup
  refine .ite (fun _ => .ok .refused) fun _ => .bind' fun t ht => .ite (fun _ => .ok .refused) fun _ => ?_
  exact .ite (fun _ => .ok .refused) fun _ => .ok (.cancelled ht)

/-! ## The end of a task -/

theorem activate_tcb (t : TskIx cfg) (a : Model cfg) :
    (a.activate t).core.tcb t =
      { a.core.tcb t with
        tskctxb := ⟨((a.core.tcb t).stk &&& ~~~ 15#64) - 272, (a.core.tcb t).task⟩
        state := .rdy } := by
  rw [Model.activate, Model.makeReady_tcb]
  simp only [Model.setCore, makeTaskContext, Core.setTcb_self]

theorem activate_ready (t : TskIx cfg) (a : Model cfg) (p : Int) :
    (a.activate t).queue (.ready p) =
      if (a.core.tcb t).tskpri = p then a.queue (.ready p) ++ [t] else a.queue (.ready p) := by
  obtain ⟨ctx, hctx⟩ := makeTaskContext_tcb_self t a.core
  have hpri : ((makeTaskContext t a.core).tcb t).tskpri = (a.core.tcb t).tskpri := by rw [hctx]
  simp only [Model.activate, Model.makeReady, Model.enq, Model.setCore, Model.setTcb, hpri]
  split
  · next hp => rw [hp, Function.update_self]
  · next hp => rw [Function.update_of_ne (by simpa [eq_comm] using hp)]

/-- The control block of a task that has become dormant. -/
theorem dormant_tcb (t : TskIx cfg) (a : Model cfg) :
    ((a.makeUnready t).setCore (taskMakeDormant t)).core.tcb t = { a.core.tcb t with
      state := .dmt
      tskpri := (a.core.tcb t).itskpri
      wupcnt := 0
      suscnt := 0
      tskwait := .none } :=
  taskMakeDormant_tcb_self t a.core

/-- Without a queued activation the task becomes dormant. -/
theorem exit_dormant (h : (a.core.tcb t).actcnt = 0) :
    a.exit t = (a.makeUnready t).setCore (taskMakeDormant t) := by
  unfold Model.exit
  dsimp only
  rw [if_neg]
  rw [dormant_tcb]
  simpa using h

theorem exit_activates (h : (a.core.tcb t).actcnt ≠ 0) :
    a.exit t = ((((a.makeUnready t).setCore (taskMakeDormant t)).setTcb t fun tcb =>
      { tcb with actcnt := tcb.actcnt - 1 }).activate t) := by
  unfold Model.exit
  dsimp only
  rw [if_pos]
  rw [dormant_tcb]
  exact h

/-- With a queued activation the task starts anew, at the end of the line of its initial
priority. -/
theorem exit_restarts (h : (a.core.tcb t).actcnt ≠ 0) :
    (a.exit t).core.tcb t = { a.core.tcb t with
      tskctxb := ⟨((a.core.tcb t).stk &&& ~~~ 15#64) - 272, (a.core.tcb t).task⟩
      actcnt := (a.core.tcb t).actcnt - 1
      state := .rdy
      tskpri := (a.core.tcb t).itskpri
      wupcnt := 0
      suscnt := 0
      tskwait := .none } ∧
    ∀ p, (a.exit t).queue (.ready p) = if (a.core.tcb t).itskpri = p
      then (a.makeUnready t).queue (.ready p) ++ [t] else (a.makeUnready t).queue (.ready p) := by
  have htcb : (((a.makeUnready t).setCore (taskMakeDormant t)).setTcb t fun tcb =>
      { tcb with actcnt := tcb.actcnt - 1 }).core.tcb t = { a.core.tcb t with
        state := .dmt
        tskpri := (a.core.tcb t).itskpri
        wupcnt := 0
        suscnt := 0
        tskwait := .none
        actcnt := (a.core.tcb t).actcnt - 1 } := by
    rw [Model.setTcb_tcb_self, dormant_tcb]
  rw [exit_activates h]
  constructor
  · rw [activate_tcb, htcb]
  · intro p
    rw [activate_ready]
    simp only [htcb]
    rfl

/-- The running task ends. -/
theorem exec_extTsk (he : exec .extTsk a = .ok (a', r)) :
    ∃ u, a.runtsk = some u ∧ a' = (a.exit u).dispatch := by
  have hv : Ensures (extTsk a) fun v => ∃ u, a.runtsk = some u ∧ v.1 = (a.exit u).dispatch :=
    .bind' fun u hu => .ok ⟨u, runTcb_eq hu, rfl⟩
  exact hv _ he

theorem Others.exit (h : Settled a) : Others t a (a.exit t) := by
  have hd : Others t a ((a.makeUnready t).setCore (Ittrium.taskMakeDormant t)) :=
    (Others.makeUnready h.nodup).trans (.taskMakeDormant t _)
  by_cases hcnt : (a.core.tcb t).actcnt = 0
  · rw [exit_dormant hcnt]
    exact hd
  · rw [exit_activates hcnt]
    exact (hd.trans (.setTcb t _ _)).trans (.activate t _)

/-! ## Activations of one task -/

/-- The activation count and the stack are the same, and the task is dormant or missing as
before. -/
structure Unstarted (tcb tcb' : TCB cfg) : Prop where
  stack : stackOf tcb' = stackOf tcb
  actcnt : tcb'.actcnt = tcb.actcnt
  dormant : tcb'.state = .dmt ↔ tcb.state = .dmt
  missing : tcb'.state = .noexs ↔ tcb.state = .noexs

theorem Unstarted.refl (tcb : TCB cfg) : Unstarted tcb tcb := ⟨rfl, rfl, Iff.rfl, Iff.rfl⟩

theorem Ordinary.unstarted {tcb tcb' : TCB cfg} (h : Ordinary tcb tcb') : Unstarted tcb tcb' :=
  ⟨h.stack, h.actcnt, h.dormant, h.missing⟩

/-- The call asks for a start of `t`. -/
def ActsOn (t : TskIx cfg) (c : Call cfg) (a : Model cfg) : Prop :=
  ∃ tskid, Call.isAct tskid c ∧ getTcbSelf tskid a = .ok t

/-- What a step does about the activations of `t`. -/
inductive Activity (t : TskIx cfg) (a : Model cfg) (c : Call cfg) (r : Ret cfg) (a' : Model cfg) :
    Prop where
  | started : ActsOn t c a → r = .er .ok → (a.core.tcb t).state = .dmt →
      a'.core.tcb t = (a.activate t).core.tcb t → Activity t a c r a'
  | queued : ActsOn t c a → r = .er .ok → (a.core.tcb t).state ≠ .dmt →
      (a.core.tcb t).actcnt < cfg.tmaxActcnt →
      a'.core.tcb t = { a.core.tcb t with actcnt := (a.core.tcb t).actcnt + 1 } →
      Activity t a c r a'
  | exited : c = .extTsk → a.runtsk = some t → a' = (a.exit t).dispatch → Activity t a c r a'
  | idle : ¬ (ActsOn t c a ∧ (r = .er .ok ∨ (a.core.tcb t).state = .dmt)) →
      ¬ (c = .extTsk ∧ a.runtsk = some t) → Unstarted (a.core.tcb t) (a'.core.tcb t) →
      Activity t a c r a'

theorem ActsOn.call (h : ActsOn t c a) : Call.counting c := by
  obtain ⟨tskid, hc, -⟩ := h
  cases c <;> trivial

/-- A call that is not an activation. -/
theorem Activity.of_other (hc : ∀ tskid, ¬ Call.isAct tskid c) (he : c ≠ .extTsk)
    (h : Unstarted (a.core.tcb t) (a'.core.tcb t)) : Activity t a c r a' :=
  .idle (fun h => (hc _ h.1.choose_spec.1).elim) (fun h => he h.1) h

theorem ActTsk.activity {b : Model cfg} (h : ActTsk tskid a r b) (hc : Call.isAct tskid c)
    (hd : UpToDispatch b a') (ht : (a.core.tcb t).state ≠ .noexs) : Activity t a c r a' := by
  have hid : ∀ id, Call.isAct id c → id = tskid := by
    intro id hid
    cases c <;> first | exact Eq.trans (Eq.symm hid) hc | exact hc.elim
  have hext : ¬ (c = .extTsk ∧ a.runtsk = some t) := by
    rintro ⟨rfl, -⟩
    exact hc
  -- of another task nothing changes
  have hother : ∀ {u}, getTcbSelf tskid a = .ok u → u ≠ t → b.core.tcb t = a.core.tcb t →
      Activity t a c r a' := by
    intro u hu hut htcb
    refine .idle ?_ hext ?_
    · rintro ⟨⟨id, hc', ht'⟩, -⟩
      rw [hid id hc', hu] at ht'
      exact hut (Except.ok.inj ht')
    · rw [hd.core, htcb]
      exact .refl _
  cases h with
  | @refused e hn h₁ h₂ =>
    refine .idle ?_ hext ?_
    · rintro ⟨⟨id, hc', ht'⟩, -⟩
      rw [hid id hc'] at ht'
      exact ht (hn t ht')
    · rw [hd.core]
      exact .refl _
  | @full u hu hn hdm hf =>
    by_cases hut : u = t
    · subst hut
      refine .idle ?_ hext ?_
      · rintro ⟨-, hr | hs⟩
        · cases hr
        · exact hdm hs
      · rw [hd.core]
        exact .refl _
    · exact hother hu hut rfl
  | @queued u hu hn hdm hf =>
    by_cases hut : u = t
    · subst hut
      exact .queued ⟨tskid, hc, hu⟩ rfl hdm hf (by rw [hd.core, Model.setTcb_tcb_self])
    · exact hother hu hut (Model.setTcb_tcb_of_ne (Ne.symm hut))
  | @started u hu hdm =>
    by_cases hut : u = t
    · subst hut
      exact .started ⟨tskid, hc, hu⟩ rfl hdm (by rw [hd.core])
    · exact hother hu hut ((Others.activate u a).tcb t (Ne.symm hut))

theorem SlpTsk.unstarted {b : Model cfg} (h : SlpTsk u tmout a r b) (hs : Settled a)
    (hu : (a.core.tcb u).state = .rdy) (t : TskIx cfg) :
    Unstarted (a.core.tcb t) (b.core.tcb t) := by
  -- only the caller changes, and it neither ends nor starts
  by_cases htu : t = u
  · subst htu
    cases h with
    | taken =>
      rw [Model.setTcb_tcb_self]
      exact ⟨rfl, rfl, Iff.rfl, Iff.rfl⟩
    | polled =>
      rw [Model.setTcb_tcb_self]
      exact ⟨rfl, rfl, Iff.rfl, Iff.rfl⟩
    | asleep =>
      obtain ⟨m, hm⟩ := Model.startWait_tcb t tmout
        ((a.setTcb t fun tcb => { tcb with ercd := .tmout }).setTcb t fun tcb =>
          { tcb with waitObj := none, tskwait := .slp })
      rw [Model.sleep, hm, Model.setTcb_tcb_self, Model.setTcb_tcb_self]
      exact ⟨rfl, rfl, by simp [hu], by simp [hu]⟩
  · cases h with
    | taken =>
      rw [Model.setTcb_tcb_of_ne htu]
      exact .refl _
    | polled =>
      rw [Model.setTcb_tcb_of_ne htu]
      exact .refl _
    | asleep =>
      have hoth : Others u a ((a.setTcb u fun tcb => { tcb with ercd := .tmout }).sleep u .slp tmout) :=
        (Others.setTcb u _ a).trans ((Others.setTcb u _ _).trans (.startWait tmout hs.nodup))
      rw [hoth.tcb t htu]
      exact .refl _

theorem WupTsk.unstarted {b : Model cfg} (h : WupTsk tskid a r b) (hs : Settled a)
    (t : TskIx cfg) : Unstarted (a.core.tcb t) (b.core.tcb t) := by
  cases h with
  | refused => exact .refl _
  | @woken u hu hw hslp =>
    by_cases htu : t = u
    · subst htu
      rw [Model.release_tcb]
      have hst := Stat.waiting_iff.mp hw
      refine ⟨rfl, rfl, ?_, ?_⟩
      · dsimp only
        split <;> rcases hst with hst | hst <;> simp [hst]
      · dsimp only
        split <;> rcases hst with hst | hst <;> simp [hst]
    · rw [(Others.release .ok hs.nodup).tcb t htu]
      exact .refl _
  | full => exact .refl _
  | @counted u hu hd hw hf =>
    by_cases htu : t = u
    · subst htu
      rw [Model.setTcb_tcb_self]
      exact ⟨rfl, rfl, Iff.rfl, Iff.rfl⟩
    · rw [Model.setTcb_tcb_of_ne htu]
      exact .refl _

theorem CanWup.unstarted (h : CanWup tskid a r a') (t : TskIx cfg) :
    Unstarted (a.core.tcb t) (a'.core.tcb t) := by
  cases h with
  | refused => exact .refl _
  | @cancelled u hu =>
    by_cases htu : t = u
    · subst htu
      rw [Model.setTcb_tcb_self]
      exact ⟨rfl, rfl, Iff.rfl, Iff.rfl⟩
    · rw [Model.setTcb_tcb_of_ne htu]
      exact .refl _

/-- A task that exists is not the one a call creates. -/
theorem TskCreated.tcb_of_exists {pk : TCtsk} (h : TskCreated tskid pk a a') (hs : Settled a)
    (ht : (a.core.tcb t).state ≠ .noexs) : a'.core.tcb t = a.core.tcb t := by
  obtain ⟨u, -, hu, -, rfl⟩ := h
  refine (Others.create pk hs).tcb t ?_
  rintro rfl
  exact ht hu

theorem acreTskLoop_cases {pk : TCtsk} : ∀ (n : Nat) (k : Int),
    Ensures (acreTskLoop pk a n k) fun v => v.1 = a ∨ ∃ id, TskCreated id pk a v.1
  | 0, _ => .ok (Or.inl rfl)
  | n + 1, k => by
    unfold acreTskLoop
    refine .bind' fun t _ => .ite (fun _ => ?_) fun _ => acreTskLoop_cases n (k + 1)
    refine .bind (creTsk_cases.mono fun v hv => .ok ?_)
    rcases hv with ⟨hv, -⟩ | ⟨-, hv⟩
    · exact Or.inl hv
    · exact Or.inr ⟨k, hv⟩

/-- Creating a task touches no other. -/
theorem exec_creates_tcb {pk : TCtsk} (hc : (∃ id, c = .creTsk id pk) ∨ c = .acreTsk pk)
    (hs : Settled a) (he : exec c a = .ok (a', r)) (ht : (a.core.tcb t).state ≠ .noexs) :
    a'.core.tcb t = a.core.tcb t := by
  have hcases : a' = a ∨ ∃ id, TskCreated id pk a a' := by
    rcases hc with ⟨id, rfl⟩ | rfl
    · rcases creTsk_cases _ he with ⟨hv, -⟩ | ⟨-, hv⟩
      · exact Or.inl hv
      · exact Or.inr ⟨id, hv⟩
    · exact acreTskLoop_cases _ _ _ he
  rcases hcases with rfl | ⟨id, hid⟩
  · rfl
  · exact hid.tcb_of_exists hs ht

/-- Deleting a task touches no other. -/
theorem exec_deletes_tcb (hs : Settled a) (he : exec (.delTsk tskid) a = .ok (a', r))
    (ht : getTcb tskid = .ok t → a.runtsk = some t) : a'.core.tcb t = a.core.tcb t := by
  have hv : Ensures (delTsk tskid a) fun v => v.1 = a ∨ ∃ u, getTcb tskid = .ok u ∧
      a.runtsk ≠ some u ∧ v.1 = (a.delete u).dispatch := by
    unfold delTsk
    refine .ite (fun _ => .ok (Or.inl rfl)) fun _ => .bind' fun u hu => ?_
    refine .ite (fun _ => .ok (Or.inl rfl)) fun _ => .ite (fun _ => .ok (Or.inl rfl)) fun hr => ?_
    exact .ok (Or.inr ⟨u, hu, hr, rfl⟩)
  rcases hv _ he with rfl | ⟨u, hu, hrun, rfl⟩
  · rfl
  · refine (Others.delete hs).tcb t ?_
    rintro rfl
    exact hrun (ht hu)

/-- **What each step does about the activations of a task**, as long as it is not deleted. -/
theorem exec_activity (h : Inv a) (he : exec c a = .ok (a', r))
    (ht : (a.core.tcb t).state ≠ .noexs)
    (hd : ∀ tskid, c = .delTsk tskid → getTcb tskid = .ok t → a.runtsk = some t) :
    Activity t a c r a' := by
  have hs := h.toSettled
  by_cases hcount : Call.counting c
  · cases c with
    | actTsk id =>
      obtain ⟨b, hb, hup⟩ := exec_actTsk (show Call.isAct id (.actTsk id) from rfl) he
      exact hb.activity rfl hup ht
    | iactTsk id =>
      obtain ⟨b, hb, hup⟩ := exec_actTsk (show Call.isAct id (.iactTsk id) from rfl) he
      exact hb.activity rfl hup ht
    | extTsk =>
      obtain ⟨u, hu, rfl⟩ := exec_extTsk he
      by_cases hut : t = u
      · subst hut
        exact .exited rfl hu rfl
      · refine .idle (fun h => (h.1.choose_spec.1).elim) (fun h => ?_) ?_
        · exact hut (Option.some.inj (h.2.symm.trans hu))
        · show Unstarted _ ((a.exit u).core.tcb t)
          rw [(Others.exit hs).tcb t hut]
          exact .refl _
    | creTsk id pk =>
      refine .of_other (fun _ h => h) nofun ?_
      rw [exec_creates_tcb (Or.inl ⟨id, rfl⟩) hs he ht]
      exact .refl _
    | acreTsk pk =>
      refine .of_other (fun _ h => h) nofun ?_
      rw [exec_creates_tcb (Or.inr rfl) hs he ht]
      exact .refl _
    | delTsk id =>
      refine .of_other (fun _ h => h) nofun ?_
      rw [exec_deletes_tcb hs he (hd id rfl)]
      exact .refl _
    | slpTsk =>
      obtain ⟨u, tmout, hu, b, hb, hup⟩ := exec_slpTsk (show Call.isSlp .slpTsk from trivial) he
      refine .of_other (fun _ h => h) nofun ?_
      rw [hup.core]
      exact hb.unstarted hs (h.runtsk u hu) t
    | tslpTsk tmout =>
      obtain ⟨u, tmout, hu, b, hb, hup⟩ :=
        exec_slpTsk (show Call.isSlp (.tslpTsk tmout) from trivial) he
      refine .of_other (fun _ h => h) nofun ?_
      rw [hup.core]
      exact hb.unstarted hs (h.runtsk u hu) t
    | wupTsk id =>
      obtain ⟨b, hb, hup⟩ := exec_wupTsk (show Call.isWup id (.wupTsk id) from rfl) he
      refine .of_other (fun _ h => h) nofun ?_
      rw [hup.core]
      exact hb.unstarted hs t
    | iwupTsk id =>
      obtain ⟨b, hb, hup⟩ := exec_wupTsk (show Call.isWup id (.iwupTsk id) from rfl) he
      refine .of_other (fun _ h => h) nofun ?_
      rw [hup.core]
      exact hb.unstarted hs t
    | canWup id => exact .of_other (fun _ h => h) nofun ((exec_canWup he).unstarted t)
    | _ => exact absurd hcount id
  · have ho := exec_ordinary h hcount _ he t
    refine .idle (fun h => hcount h.1.call) (fun h => ?_) ho.unstarted
    rw [h.1] at hcount
    exact hcount trivial

end Ittrium.Spec
