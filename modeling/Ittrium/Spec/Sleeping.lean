import Ittrium.Spec.Requests

/-!
# Sleep and wake-up requests of one task

* `Wakeup` — what a step does about the wake-up requests of a task
* `exec_wakeup` — **every step that neither ends nor deletes the task is one of these**
* `exec_dormant` — a dormant task has no wake-up requests
-/

namespace Ittrium.Spec

open Infra

variable {cfg : Config} {a a' b : Model cfg} {t u : TskIx cfg} {c : Call cfg} {r : Ret cfg}
  {tskid : Int} {tmout : TMO}

/-! ## Steps of one task -/

/-- The count is the same, and no sleep has begun or ended with a new result. -/
structure Undisturbed (tcb tcb' : TCB cfg) : Prop where
  wupcnt : tcb'.wupcnt = tcb.wupcnt
  asleep : tcb'.tskwait = .slp → tcb.tskwait = .slp
  result : tcb.tskwait = .slp → tcb'.ercd = tcb.ercd

theorem Undisturbed.refl (tcb : TCB cfg) : Undisturbed tcb tcb := ⟨rfl, id, fun _ => rfl⟩

theorem Ordinary.undisturbed {tcb tcb' : TCB cfg} (h : Ordinary tcb tcb') : Undisturbed tcb tcb' :=
  ⟨h.wupcnt, h.asleep, h.result⟩

/-- The call asks to wake `t` up. -/
def WakesOn (t : TskIx cfg) (c : Call cfg) (a : Model cfg) : Prop :=
  ∃ tskid, Call.isWup tskid c ∧ getTcbSelf tskid a = .ok t

/-- The call cancels the wake-up requests of `t`. -/
def CancelsOn (t : TskIx cfg) (c : Call cfg) (a : Model cfg) : Prop :=
  ∃ tskid, c = .canWup tskid ∧ getTcbSelf tskid a = .ok t

/-- `t` sleeps. -/
def Sleeps (tcb : TCB cfg) : Prop := tcb.state.waiting ∧ tcb.tskwait = .slp

/-- What a step does about the wake-up requests of `t`. -/
inductive Wakeup (t : TskIx cfg) (a : Model cfg) (c : Call cfg) (r : Ret cfg) (a' : Model cfg) :
    Prop where
  | woken : WakesOn t c a → r = .er .ok → Sleeps (a.core.tcb t) →
      a'.core.tcb t = released .ok (a.core.tcb t) → Wakeup t a c r a'
  | full : WakesOn t c a → r = .er .qovr → ¬ Sleeps (a.core.tcb t) →
      (a.core.tcb t).wupcnt ≥ cfg.tmaxActcnt → a'.core.tcb t = a.core.tcb t → Wakeup t a c r a'
  | counted : WakesOn t c a → r = .er .ok → ¬ Sleeps (a.core.tcb t) →
      (a.core.tcb t).wupcnt < cfg.tmaxActcnt →
      a'.core.tcb t = { a.core.tcb t with wupcnt := (a.core.tcb t).wupcnt + 1 } → Wakeup t a c r a'
  | taken : Call.isSlp c → a.runtsk = some t → r = .er .ok → 0 < (a.core.tcb t).wupcnt →
      a'.core.tcb t = { a.core.tcb t with wupcnt := (a.core.tcb t).wupcnt - 1, ercd := .ok } →
      Wakeup t a c r a'
  | polled : Call.isSlp c → a.runtsk = some t → r = .er .tmout → ¬ 0 < (a.core.tcb t).wupcnt →
      a'.core.tcb t = { a.core.tcb t with ercd := .tmout } → Wakeup t a c r a'
  | asleep : Call.isSlp c → a.runtsk = some t → r = .blocked → ¬ 0 < (a.core.tcb t).wupcnt →
      (∃ m, a'.core.tcb t = { a.core.tcb t with
        ercd := .tmout, waitObj := none, tskwait := .slp, state := .wai, wtmeb := m }) →
      Wakeup t a c r a'
  | cancelled : CancelsOn t c a → r = .wupcnt (a.core.tcb t).wupcnt →
      a'.core.tcb t = { a.core.tcb t with wupcnt := 0 } → Wakeup t a c r a'
  | idle : (WakesOn t c a → (a.core.tcb t).state = .dmt ∧ r ≠ .er .ok) →
      ¬ (Call.isSlp c ∧ a.runtsk = some t) → (CancelsOn t c a → ∀ n, r ≠ .wupcnt n) →
      Undisturbed (a.core.tcb t) (a'.core.tcb t) → Wakeup t a c r a'

/-- A call that is about something else. -/
theorem Wakeup.of_other (hw : ∀ tskid, ¬ Call.isWup tskid c) (hs : ¬ Call.isSlp c)
    (hc : ∀ tskid, c ≠ .canWup tskid) (h : Undisturbed (a.core.tcb t) (a'.core.tcb t)) :
    Wakeup t a c r a' :=
  .idle (fun h => (hw _ h.choose_spec.1).elim) (fun h => hs h.1)
    (fun h => (hc _ h.choose_spec.1).elim) h

theorem WupTsk.wakeup (h : WupTsk tskid a r b) (hc : Call.isWup tskid c) (hd : UpToDispatch b a')
    (hs : Settled a) (ht : (a.core.tcb t).state ≠ .noexs) : Wakeup t a c r a' := by
  have hid : ∀ id, Call.isWup id c → id = tskid := by
    intro id hid
    cases c <;> first | exact Eq.trans (Eq.symm hid) hc | exact hc.elim
  have hslp : ¬ Call.isSlp c := by cases c <;> first | exact hc.elim | exact id
  have hcan : ∀ id, c ≠ .canWup id := by
    rintro id rfl
    exact hc
  -- of another task nothing changes
  have hother : ∀ {u}, getTcbSelf tskid a = .ok u → u ≠ t → b.core.tcb t = a.core.tcb t →
      Wakeup t a c r a' := by
    intro u hu hut htcb
    refine .idle ?_ (fun h => hslp h.1) (fun h => (hcan _ h.choose_spec.1).elim) ?_
    · rintro ⟨id, hc', ht'⟩
      rw [hid id hc', hu] at ht'
      exact absurd (Except.ok.inj ht') hut
    · rw [hd.core, htcb]
      exact .refl _
  cases h with
  | @refused e hn he =>
    refine .idle ?_ (fun h => hslp h.1) (fun h => (hcan _ h.choose_spec.1).elim) ?_
    · rintro ⟨id, hc', ht'⟩
      rw [hid id hc'] at ht'
      exact ⟨(hn t ht').resolve_left ht, by simpa using he⟩
    · rw [hd.core]
      exact .refl _
  | @woken u hu hw hsl =>
    by_cases hut : u = t
    · subst hut
      exact .woken ⟨tskid, hc, hu⟩ rfl ⟨hw, hsl⟩ (by rw [hd.core, release_tcb_self])
    · exact hother hu hut ((Others.release .ok hs.nodup).tcb t (Ne.symm hut))
  | @full u hu hsl hf =>
    by_cases hut : u = t
    · subst hut
      exact .full ⟨tskid, hc, hu⟩ rfl hsl hf (by rw [hd.core])
    · exact hother hu hut rfl
  | @counted u hu hdm hsl hf =>
    by_cases hut : u = t
    · subst hut
      exact .counted ⟨tskid, hc, hu⟩ rfl hsl hf (by rw [hd.core, Model.setTcb_tcb_self])
    · exact hother hu hut (Model.setTcb_tcb_of_ne (Ne.symm hut))

/-- The control block of a task that has gone to sleep. -/
theorem sleep_tcb (t : TskIx cfg) (tmout : TMO) (a : Model cfg) :
    ∃ m, ((a.setTcb t fun tcb => { tcb with ercd := .tmout }).sleep t .slp tmout).core.tcb t =
      { a.core.tcb t with
        ercd := .tmout, waitObj := none, tskwait := .slp, state := .wai, wtmeb := m } := by
  obtain ⟨m, hm⟩ := Model.startWait_tcb t tmout
    ((a.setTcb t fun tcb => { tcb with ercd := .tmout }).setTcb t fun tcb =>
      { tcb with waitObj := none, tskwait := .slp })
  refine ⟨m, ?_⟩
  rw [Model.sleep, hm, Model.setTcb_tcb_self, Model.setTcb_tcb_self]

theorem SlpTsk.others (h : SlpTsk u tmout a r b) (hs : Settled a) : Others u a b := by
  cases h with
  | taken => exact .setTcb u _ a
  | polled => exact .setTcb u _ a
  | asleep =>
    exact (Others.setTcb u _ a).trans ((Others.setTcb u _ _).trans (.startWait tmout hs.nodup))

theorem SlpTsk.wakeup (h : SlpTsk u tmout a r b) (hc : Call.isSlp c) (hr : a.runtsk = some u)
    (hd : UpToDispatch b a') (hs : Settled a) : Wakeup t a c r a' := by
  have hwup : ∀ id, ¬ Call.isWup id c := by
    intro id hid
    cases c <;> first | exact hc | exact hid
  have hcan : ∀ id, c ≠ .canWup id := by
    rintro id rfl
    exact hc
  by_cases htu : t = u
  · subst htu
    cases h with
    | taken hw => exact .taken hc hr rfl hw (by rw [hd.core, Model.setTcb_tcb_self])
    | polled hw => exact .polled hc hr rfl hw (by rw [hd.core, Model.setTcb_tcb_self])
    | asleep hw =>
      refine .asleep hc hr rfl hw ?_
      rw [hd.core]
      exact sleep_tcb t tmout a
  · refine .idle (fun h => (hwup _ h.choose_spec.1).elim) ?_
      (fun h => (hcan _ h.choose_spec.1).elim) ?_
    · rintro ⟨-, hr'⟩
      exact htu (Option.some.inj (hr'.symm.trans hr))
    · rw [hd.core, (h.others hs).tcb t htu]
      exact .refl _

theorem CanWup.wakeup (h : CanWup tskid a r a') : Wakeup t a (.canWup tskid) r a' := by
  have hother : (CancelsOn t (.canWup tskid) a → ∀ n, r ≠ .wupcnt n) →
      a'.core.tcb t = a.core.tcb t → Wakeup t a (.canWup tskid) r a' := by
    intro hn htcb
    refine .idle (fun h => h.choose_spec.1.elim) (fun h => h.1) hn ?_
    rw [htcb]
    exact .refl _
  cases h with
  | refused => exact hother (fun _ n => nofun) rfl
  | @cancelled u hu =>
    by_cases hut : u = t
    · subst hut
      exact .cancelled ⟨tskid, rfl, hu⟩ rfl (by rw [Model.setTcb_tcb_self])
    · refine hother ?_ (Model.setTcb_tcb_of_ne (Ne.symm hut))
      rintro ⟨id, hid, ht⟩
      obtain rfl := Call.canWup.inj hid
      rw [hu] at ht
      exact absurd (Except.ok.inj ht) hut

theorem ActTsk.undisturbed (h : ActTsk tskid a r b) (t : TskIx cfg) :
    Undisturbed (a.core.tcb t) (b.core.tcb t) := by
  cases h with
  | refused => exact .refl _
  | full => exact .refl _
  | @queued u hu =>
    by_cases htu : t = u
    · rw [htu, Model.setTcb_tcb_self]
      exact ⟨rfl, id, fun _ => rfl⟩
    · rw [Model.setTcb_tcb_of_ne htu]
      exact .refl _
  | @started u hu =>
    by_cases htu : t = u
    · rw [htu, activate_tcb]
      exact ⟨rfl, id, fun _ => rfl⟩
    · rw [(Others.activate u a).tcb t htu]
      exact .refl _

/-- **What each step does about the wake-up requests of a task**, as long as it neither ends nor is
deleted. -/
theorem exec_wakeup (h : Inv a) (he : exec c a = .ok (a', r)) (ht : (a.core.tcb t).state ≠ .noexs)
    (hx : ¬ (c = .extTsk ∧ a.runtsk = some t))
    (hd : ∀ tskid, c = .delTsk tskid → getTcb tskid = .ok t → a.runtsk = some t) :
    Wakeup t a c r a' := by
  have hs := h.toSettled
  -- the calls that count requests, one by one, and then all others at once
  by_cases hcount : Call.counting c
  · cases c with
    | wupTsk id =>
      obtain ⟨b, hb, hup⟩ := exec_wupTsk (show Call.isWup id (.wupTsk id) from rfl) he
      exact hb.wakeup rfl hup hs ht
    | iwupTsk id =>
      obtain ⟨b, hb, hup⟩ := exec_wupTsk (show Call.isWup id (.iwupTsk id) from rfl) he
      exact hb.wakeup rfl hup hs ht
    | slpTsk =>
      obtain ⟨u, tmout, hu, b, hb, hup⟩ := exec_slpTsk (show Call.isSlp .slpTsk from trivial) he
      exact hb.wakeup trivial hu hup hs
    | tslpTsk tmout =>
      obtain ⟨u, tmout, hu, b, hb, hup⟩ :=
        exec_slpTsk (show Call.isSlp (.tslpTsk tmout) from trivial) he
      exact hb.wakeup trivial hu hup hs
    | canWup id => exact (exec_canWup he).wakeup
    | actTsk id =>
      obtain ⟨b, hb, hup⟩ := exec_actTsk (show Call.isAct id (.actTsk id) from rfl) he
      refine .of_other (fun _ h => h) (fun h => h) nofun ?_
      rw [hup.core]
      exact hb.undisturbed t
    | iactTsk id =>
      obtain ⟨b, hb, hup⟩ := exec_actTsk (show Call.isAct id (.iactTsk id) from rfl) he
      refine .of_other (fun _ h => h) (fun h => h) nofun ?_
      rw [hup.core]
      exact hb.undisturbed t
    | extTsk =>
      obtain ⟨u, hu, rfl⟩ := exec_extTsk he
      have htu : t ≠ u := by
        rintro rfl
        exact hx ⟨rfl, hu⟩
      refine .of_other (fun _ h => h) (fun h => h) nofun ?_
      show Undisturbed _ ((a.exit u).core.tcb t)
      rw [(Others.exit hs).tcb t htu]
      exact .refl _
    | creTsk id pk =>
      refine .of_other (fun _ h => h) (fun h => h) nofun ?_
      rw [exec_creates_tcb (Or.inl ⟨id, rfl⟩) hs he ht]
      exact .refl _
    | acreTsk pk =>
      refine .of_other (fun _ h => h) (fun h => h) nofun ?_
      rw [exec_creates_tcb (Or.inr rfl) hs he ht]
      exact .refl _
    | delTsk id =>
      refine .of_other (fun _ h => h) (fun h => h) nofun ?_
      rw [exec_deletes_tcb hs he (hd id rfl)]
      exact .refl _
    | _ => exact absurd hcount id
  · have ho := exec_ordinary h hcount _ he t
    refine .of_other ?_ ?_ ?_ ho.undisturbed
    · intro id hid
      refine hcount ?_
      cases c <;> trivial
    · intro hsl
      refine hcount ?_
      cases c <;> trivial
    · rintro id rfl
      exact hcount trivial

/-! ## Dormant tasks -/

/-- Dormant tasks have no wake-up requests. -/
def DormantClear (a : Model cfg) : Prop := ∀ t, (a.core.tcb t).state = .dmt → (a.core.tcb t).wupcnt = 0

/-- Only `u` is touched. -/
theorem DormantClear.of_others (h : DormantClear a) (ho : Others u a a')
    (hu : (a'.core.tcb u).state = .dmt → (a'.core.tcb u).wupcnt = 0) : DormantClear a' := by
  intro t ht
  by_cases htu : t = u
  · rw [htu] at ht ⊢
    exact hu ht
  · rw [ho.tcb t htu] at ht ⊢
    exact h t ht

theorem DormantClear.of_core (h : DormantClear a) (hc : a'.core = a.core) : DormantClear a' := by
  unfold DormantClear
  rw [hc]
  exact h

theorem DormantClear.created {pk : TCtsk} (h : DormantClear a) (hs : Settled a)
    (hc : TskCreated tskid pk a a') : DormantClear a' := by
  obtain ⟨u, -, -, -, rfl⟩ := hc
  refine h.of_others (.create pk hs) fun _ => ?_
  rw [show (a.create u pk).core.tcb u = _ from taskMakeDormant_tcb_self u _]

/-- **No step leaves a dormant task with wake-up requests.** -/
theorem exec_dormantClear (h : Inv a) (hD : DormantClear a) (he : exec c a = .ok (a', r)) :
    DormantClear a' := by
  have hs := h.toSettled
  have hwup : ∀ {id b}, WupTsk id a r b → DormantClear b := by
    intro id b hb
    cases hb with
    | refused => exact hD
    | full => exact hD
    | @woken u hu hw hsl =>
      refine hD.of_others (.release .ok hs.nodup) fun hdm => ?_
      rcases release_tcb_state u .ok a with hst | hst <;> rw [hst] at hdm <;> cases hdm
    | @counted u hu hdm hsl hf =>
      refine hD.of_others (.setTcb u _ a) fun hdm' => ?_
      rw [Model.setTcb_tcb_self] at hdm'
      exact absurd hdm' hdm
  have hact : ∀ {id b}, ActTsk id a r b → DormantClear b := by
    intro id b hb t ht
    have hun := hb.undisturbed t
    rw [hun.wupcnt]
    cases hb with
    | refused => exact hD t ht
    | full => exact hD t ht
    | @queued u hu hn hdm hf =>
      by_cases htu : t = u
      · subst htu
        rw [Model.setTcb_tcb_self] at ht
        exact absurd ht hdm
      · rw [Model.setTcb_tcb_of_ne htu] at ht
        exact hD t ht
    | @started u hu hdm =>
      by_cases htu : t = u
      · subst htu
        exact hD t hdm
      · rw [(Others.activate u a).tcb t htu] at ht
        exact hD t ht
  -- only the running task sleeps, and it is not dormant
  have hslp : ∀ {u tmout b}, a.runtsk = some u → SlpTsk u tmout a r b → DormantClear b := by
    intro u tmout b hu hb
    refine hD.of_others (hb.others hs) fun hdm => ?_
    rw [(hb.unstarted hs (h.runtsk u hu) u).dormant, h.runtsk u hu] at hdm
    cases hdm
  by_cases hcount : Call.counting c
  · cases c with
    | wupTsk id =>
      obtain ⟨b, hb, hup⟩ := exec_wupTsk (show Call.isWup id (.wupTsk id) from rfl) he
      exact (hwup hb).of_core hup.core
    | iwupTsk id =>
      obtain ⟨b, hb, hup⟩ := exec_wupTsk (show Call.isWup id (.iwupTsk id) from rfl) he
      exact (hwup hb).of_core hup.core
    | slpTsk =>
      obtain ⟨u, tmout, hu, b, hb, hup⟩ := exec_slpTsk (show Call.isSlp .slpTsk from trivial) he
      exact (hslp hu hb).of_core hup.core
    | tslpTsk tmout =>
      obtain ⟨u, tmout, hu, b, hb, hup⟩ :=
        exec_slpTsk (show Call.isSlp (.tslpTsk tmout) from trivial) he
      exact (hslp hu hb).of_core hup.core
    | canWup id =>
      have hcan := exec_canWup he
      cases hcan with
      | refused => exact hD
      | @cancelled u hu =>
        refine hD.of_others (.setTcb u _ a) fun _ => ?_
        rw [Model.setTcb_tcb_self]
    | actTsk id =>
      obtain ⟨b, hb, hup⟩ := exec_actTsk (show Call.isAct id (.actTsk id) from rfl) he
      exact (hact hb).of_core hup.core
    | iactTsk id =>
      obtain ⟨b, hb, hup⟩ := exec_actTsk (show Call.isAct id (.iactTsk id) from rfl) he
      exact (hact hb).of_core hup.core
    | extTsk =>
      obtain ⟨u, hu, rfl⟩ := exec_extTsk he
      have hE : DormantClear (a.exit u) := by
        refine hD.of_others (.exit hs) fun hdm => ?_
        by_cases hcnt : (a.core.tcb u).actcnt = 0
        · rw [exit_dormant hcnt, dormant_tcb]
        · rw [(exit_restarts hcnt).1]
      exact hE
    | creTsk id pk =>
      rcases creTsk_cases _ he with ⟨ha, -⟩ | ⟨-, hcr⟩
      · exact hD.of_core (congrArg Model.core ha)
      · exact hD.created hs hcr
    | acreTsk pk =>
      rcases acreTskLoop_cases _ _ _ he with ha | ⟨id, hcr⟩
      · exact hD.of_core (congrArg Model.core ha)
      · exact hD.created hs hcr
    | delTsk id =>
      rcases delTsk_cases he with rfl | ⟨-, u, -, -, rfl⟩
      · exact hD
      · have hE : DormantClear (a.delete u) := by
          refine hD.of_others (.delete hs) fun hdm => ?_
          rw [Model.delete_tcb] at hdm
          cases hdm
        exact hE
    | _ => exact absurd hcount id
  -- no other call changes the requests, or who is dormant
  · intro t ht
    have ho := exec_ordinary h hcount _ he t
    rw [ho.wupcnt]
    exact hD t (ho.dormant.mp ht)

end Ittrium.Spec
