import Ittrium.Spec.Loops
import Ittrium.Infra.Outcome

/-!
# What a step can do

* `Sound` — the calls for which the kernel does what it is meant to
* `Step c a r a'` — the three ways a step goes: waits only end; besides, the task to run is
  chosen anew; or the running task begins to wait
* `exec_step` — **every step is one of them**
* `exec_inv` — **every step keeps the invariant**
-/

namespace Ittrium.Spec

open Infra

variable {cfg : Config} {a a' : Model cfg} {t : TskIx cfg} {r : Ret cfg}

/-! ## Calls -/

/--
Creating a task with a priority of a ready line, changing the priority of a ready task, suspending
a task that is not suspended already.
-/
def Sound (core : Core cfg) : Call cfg → Prop
  | .creTsk _ pk | .acreTsk pk => tminTpri ≤ pk.itskpri ∧ pk.itskpri ≤ cfg.tmaxTpri
  | .chgPri tskid _ => ∀ t, getTcb tskid = .ok t → (core.tcb t).state = .noexs ∨
    (core.tcb t).state = .dmt ∨ (core.tcb t).state = .rdy
  | .susTsk tskid => ∀ t, getTcb tskid = .ok t → (core.tcb t).state = .sus →
    (core.tcb t).suscnt = cfg.tmaxActcnt
  | _ => True

/-- The object a call may make its caller wait for, and the timeout. -/
def Call.wait : Call cfg → Option (Option (ObjId cfg) × TMO)
  | .dlyTsk dlytim => some (none, dlytim.setWidth 16)
  | .slpTsk => some (none, tmoFevr)
  | .tslpTsk tmout => some (none, tmout)
  | .waiSem semid => (getSemcb semid).toOption.map fun i => (some (.sem i), tmoFevr)
  | .twaiSem semid tmout => (getSemcb semid).toOption.map fun i => (some (.sem i), tmout)
  | .polSem semid => (getSemcb semid).toOption.map fun i => (some (.sem i), tmoPol)
  | .waiFlg flgid _ _ _ => (getFlgcb flgid).toOption.map fun i => (some (.flg i), tmoFevr)
  | .twaiFlg flgid _ _ _ tmout => (getFlgcb flgid).toOption.map fun i => (some (.flg i), tmout)
  | .polFlg flgid _ _ _ => (getFlgcb flgid).toOption.map fun i => (some (.flg i), tmoPol)
  | .rcvMbx mbxid _ => (getMbxcb mbxid).toOption.map fun i => (some (.mbx i), tmoFevr)
  | .trcvMbx mbxid _ tmout => (getMbxcb mbxid).toOption.map fun i => (some (.mbx i), tmout)
  | .prcvMbx mbxid _ => (getMbxcb mbxid).toOption.map fun i => (some (.mbx i), tmoPol)
  | _ => none

/-- The ways a step goes. -/
inductive Step (w : Option (Option (ObjId cfg) × TMO)) (a : Model cfg) :
    Ret cfg → Model cfg → Prop where
  | steady {r : Ret cfg} {b : Model cfg} : r ≠ .blocked → Steady a b → Step w a r b
  | dispatch {r : Ret cfg} {b : Model cfg} : r ≠ .blocked → Calm a b → Step w a r b.dispatch
  | blocked {t : TskIx cfg} {o : Option (ObjId cfg)} {tmout : TMO} {b : Model cfg} :
      w = some (o, tmout) → a.runtsk = some t → Blocked t o tmout a b →
      Step w a .blocked b.dispatch

/-- The outcome of a call is one of a step. -/
abbrev Steps (w : Option (Option (ObjId cfg) × TMO)) (a : Model cfg) (x : Outcome cfg) : Prop :=
  Ensures x fun v => Step w a v.2 v.1

/-- The outcome of a call is one of a step that does not choose the task to run anew. -/
abbrev Steadies (a : Model cfg) (x : Outcome cfg) : Prop :=
  Ensures x fun v => v.2 ≠ .blocked ∧ Steady a v.1

theorem Steadies.steps {w : Option (Option (ObjId cfg) × TMO)} {x : Outcome cfg}
    (h : Steadies a x) : Steps w a x :=
  h.mono fun _ hv => .steady hv.1 hv.2

theorem Steadies.dispatchIfOk {w : Option (Option (ObjId cfg) × TMO)} {x : Outcome cfg}
    (h : Steadies a x) : Steps w a (Spec.dispatchIfOk x) := by
  refine Ensures.bind (h.mono fun v hv => ?_)
  refine Ensures.ok ?_
  dsimp only
  split
  · exact .dispatch hv.1 hv.2.toCalm
  · exact .steady hv.1 hv.2

theorem Steadies.dispatchAll {w : Option (Option (ObjId cfg) × TMO)} {x : Outcome cfg}
    (h : Steadies a x) : Steps w a (Spec.dispatchAll x) :=
  Ensures.bind (h.mono fun _ hv => Ensures.ok (.dispatch hv.1 hv.2.toCalm))

/-- Nothing changes. -/
theorem Settled.steadies_self (h : Settled a) (hr : r ≠ .blocked) : Steadies a (.ok (a, r)) :=
  Ensures.ok ⟨hr, .refl h⟩

/-- Priorities that are valid for a caller are those of ready lines. -/
theorem linePri_priToIndex {p : Int} (h₁ : tminTpri ≤ p) (h₂ : p ≤ cfg.tmaxTpri) :
    LinePri cfg (priToIndex p) := by
  have := cfg.tpri_short
  unfold tminTpri at h₁
  unfold priToIndex
  rw [toShort_of_range (by omega) (by omega)]
  exact ⟨by omega, by omega⟩

/-! ## Tasks -/

theorem Settled.creTsk {tskid : Int} {pk : TCtsk} (h : Settled a)
    (hpk : tminTpri ≤ pk.itskpri ∧ pk.itskpri ≤ cfg.tmaxTpri) :
    Steadies a (creTsk tskid pk a) := by
  unfold Spec.creTsk
  refine .ite (fun _ => h.steadies_self (by simp)) fun _ => .bind' fun t _ => ?_
  refine .ite (fun _ => h.steadies_self (by simp)) fun hs => ?_
  refine .ite (fun _ => h.steadies_self (by simp)) fun _ => .ok ⟨by simp, ?_⟩
  exact h.create (not_not.mp hs) (linePri_priToIndex hpk.1 hpk.2)

theorem Settled.acreTskLoop {pk : TCtsk} (h : Settled a)
    (hpk : tminTpri ≤ pk.itskpri ∧ pk.itskpri ≤ cfg.tmaxTpri) :
    ∀ (n : Nat) (i : Int), Steadies a (acreTskLoop pk a n i)
  | 0, _ => h.steadies_self (by simp)
  | n + 1, i => by
    unfold Spec.acreTskLoop
    refine .bind' fun t _ => .ite (fun _ => ?_) fun _ => h.acreTskLoop hpk n (i + 1)
    refine .bind ((h.creTsk hpk).mono fun v hv => .ok ⟨?_, hv.2⟩)
    dsimp only
    split
    · simp
    · exact hv.1

theorem Settled.delTsk {tskid : Int} {w : Option (Option (ObjId cfg) × TMO)} (h : Settled a) :
    Steps w a (delTsk tskid a) := by
  unfold Spec.delTsk
  refine .ite (fun _ => (h.steadies_self (by simp)).steps) fun _ => .bind' fun t _ => ?_
  refine .ite (fun _ => (h.steadies_self (by simp)).steps) fun hs => ?_
  refine .ite (fun _ => (h.steadies_self (by simp)).steps) fun _ => .ok ?_
  exact .dispatch (by simp) (h.delete hs)

/-- Data of a `TCB` that the invariant does not mention. -/
theorem Settled.setTcb_steady {f : TCB cfg → TCB cfg} (h : Settled a)
    (hf : SameStanding (a.core.tcb t) (f (a.core.tcb t))) (hr : r ≠ .blocked) :
    Steadies a (.ok (a.setTcb t f, r)) :=
  Ensures.ok ⟨hr, h.setTcb hf⟩

theorem Settled._actTsk {tskid : Int} (h : Settled a) : Steadies a (_actTsk tskid a) := by
  unfold Spec._actTsk
  refine .ite (fun _ => h.steadies_self (by simp)) fun _ => .bind' fun t _ => ?_
  refine .ite (fun _ => h.steadies_self (by simp)) fun _ => ?_
  refine .ite (fun _ => ?_) fun hd => .ok ⟨by simp, h.activate (not_not.mp hd)⟩
  refine .ite (fun _ => h.steadies_self (by simp)) fun _ => h.setTcb_steady ?_ (by simp)
  exact ⟨rfl, rfl, rfl, rfl, rfl, rfl, rfl, rfl, fun _ => ⟨rfl, rfl⟩⟩

/-- The task an argument stands for: the running one, or the one of that ID. -/
theorem getTcbSelf_cases {tskid : Int} (h : getTcbSelf tskid a = .ok t) :
    a.runtsk = some t ∨ getTcb tskid = .ok t := by
  unfold getTcbSelf at h
  split at h
  · left
    unfold runTcb at h
    split at h
    · next ht => rw [ht]; cases h; rfl
    · cases h
  · exact Or.inr h

theorem runTcb_eq (h : runTcb a = .ok t) : a.runtsk = some t := by
  unfold runTcb at h
  split at h
  · next ht => rw [ht]; cases h; rfl
  · cases h

theorem Inv.chgPri {tskid tskpri : Int} {w : Option (Option (ObjId cfg) × TMO)} (h : Inv a)
    (hs : Sound a.core (.chgPri tskid tskpri)) : Steps w a (chgPri tskid tskpri a) := by
  have hst := h.toSettled
  unfold Spec.chgPri
  refine .ite (fun _ => (hst.steadies_self (by simp)).steps) fun _ => ?_
  refine .ite (fun _ => (hst.steadies_self (by simp)).steps) fun hp => .bind' fun t ht => ?_
  refine .ite (fun _ => (hst.steadies_self (by simp)).steps) fun hn => ?_
  refine .ite (fun _ => (hst.steadies_self (by simp)).steps) fun hd => .ok ?_
  have hr : (a.core.tcb t).state = .rdy := by
    rcases getTcbSelf_cases ht with hr | ht
    · exact h.runtsk t hr
    · exact ((hs t ht).resolve_left hn).resolve_left hd
  refine .dispatch (by simp) (hst.changePri hr ?_).toCalm
  split
  · exact (h.task t).itskpri hn
  · next hp' =>
    exact linePri_priToIndex (by by_contra; exact hp ⟨by omega, hp'⟩)
      (by by_contra; exact hp ⟨by omega, hp'⟩)

theorem Settled.rotRdq {tskpri : Int} {w : Option (Option (ObjId cfg) × TMO)} (h : Settled a) :
    Steps w a (rotRdq tskpri a) := by
  unfold Spec.rotRdq
  refine .ite (fun _ => .ok (.dispatch (by simp) (h.rotate _).toCalm)) fun _ => ?_
  exact .ite (fun _ => (h.steadies_self (by simp)).steps) fun _ =>
    .ok (.dispatch (by simp) (h.rotate _).toCalm)

theorem Inv.extTsk {w : Option (Option (ObjId cfg) × TMO)} (h : Inv a) :
    Steps w a (extTsk a) := by
  unfold Spec.extTsk
  refine .bind' fun t ht => .ok (.dispatch (by simp) (h.exit ?_))
  exact h.runtsk t (runTcb_eq ht)

/-- The running task is ready. -/
theorem Inv.ready_of_runTcb (h : Inv a) (ht : runTcb a = .ok t) :
    (a.core.tcb t).state = .rdy :=
  h.runtsk t (runTcb_eq ht)

/-- Data of a task that does not wait, apart from where it stands. -/
theorem SameStanding.of_ready {tcb tcb' : TCB cfg} (hr : tcb.state = .rdy)
    (h : tcb'.state = tcb.state ∧ tcb'.itskpri = tcb.itskpri ∧ tcb'.tskpri = tcb.tskpri ∧
      tcb'.suscnt = tcb.suscnt ∧ tcb'.tskwait = tcb.tskwait ∧ tcb'.waitObj = tcb.waitObj ∧
      tcb'.wtmeb = tcb.wtmeb) : SameStanding tcb tcb' := by
  obtain ⟨h₁, h₂, h₃, h₄, h₅, h₆, h₇⟩ := h
  exact ⟨h₁, h₂, h₃, h₄, h₅, h₆, by rw [h₇], by rw [h₇], by simp [hr, Stat.waiting_iff]⟩

/-- The running task sets data of its own and begins to sleep. -/
theorem Inv.sleeps {f : TCB cfg → TCB cfg} {why : TskWait} (tmout : TMO) (h : Inv a)
    (ht : runTcb a = .ok t)
    (hf : SameStanding (a.core.tcb t) (f (a.core.tcb t))) (hwhy : why ≠ .none) :
    Steps (some (none, tmout)) a
      (.ok (((a.setTcb t f).sleep t why tmout).dispatch, .blocked)) := by
  have hr := h.ready_of_runTcb ht
  have hs := (h.toSettled.setTcb hf).settled
  refine .ok (.blocked rfl (runTcb_eq ht) ((hs.sleep tmout ?_ hwhy).of_setTcb hf.state hf.tskpri))
  rw [Model.setTcb_tcb_self, hf.state, hr]

theorem Inv.dlyTsk {dlytim : RELTIM} (h : Inv a) :
    Steps (some (none, dlytim.setWidth 16)) a (dlyTsk dlytim a) := by
  unfold Spec.dlyTsk
  exact .bind' fun t ht => h.sleeps _ ht
    (.of_ready (h.ready_of_runTcb ht) ⟨rfl, rfl, rfl, rfl, rfl, rfl, rfl⟩) (by simp)

theorem Inv.susTsk {tskid : Int} {w : Option (Option (ObjId cfg) × TMO)} (h : Inv a) :
    Steps w a (susTsk tskid a) := by
  have hst := h.toSettled
  unfold Spec.susTsk
  refine .ite (fun _ => (hst.steadies_self (by simp)).steps) fun _ => .bind' fun t _ => ?_
  refine .ite (fun _ => .ok (.dispatch (by simp) (.refl hst))) fun h₁ => ?_
  refine .ite (fun _ => .ok (.dispatch (by simp) (.refl hst))) fun h₂ => ?_
  refine .ite (fun _ => .ok (.dispatch (by simp) (.refl hst))) fun _ => ?_
  exact .ok (.dispatch (by simp) (hst.suspend h₁ h₂))

theorem Settled.rsmTsk {tskid : Int} {w : Option (Option (ObjId cfg) × TMO)} (h : Settled a) :
    Steps w a (rsmTsk tskid a) := by
  unfold Spec.rsmTsk
  refine .ite (fun _ => (h.steadies_self (by simp)).steps) fun _ => .bind' fun t _ => ?_
  refine .ite (fun _ => .ok (.dispatch (by simp) (.refl h))) fun _ => ?_
  refine .ite (fun _ => .ok (.dispatch (by simp) (.refl h))) fun hs => ?_
  exact .ok (.dispatch (by simp) (h.resume (by tauto)).toCalm)

theorem Inv._slpTsk {tmout : TMO} (h : Inv a) : Steps (some (none, tmout)) a (_slpTsk tmout a) := by
  have hst := h.toSettled
  unfold Spec._slpTsk
  refine .bind' fun t ht => ?_
  have hr := h.ready_of_runTcb ht
  refine .ite (fun _ => .ok (.dispatch (by simp) (hst.setTcb ?_).toCalm)) fun _ => ?_
  · exact .of_ready hr ⟨rfl, rfl, rfl, rfl, rfl, rfl, rfl⟩
  · dsimp only
    refine .ite (fun _ => ?_) fun _ => .ok (.dispatch (by simp) (hst.setTcb ?_).toCalm)
    · exact h.sleeps tmout ht (.of_ready hr ⟨rfl, rfl, rfl, rfl, rfl, rfl, rfl⟩) (by simp)
    · exact .of_ready hr ⟨rfl, rfl, rfl, rfl, rfl, rfl, rfl⟩

theorem Settled._wupTsk {tskid : Int} (h : Settled a) : Steadies a (_wupTsk tskid a) := by
  unfold Spec._wupTsk
  refine .ite (fun _ => h.steadies_self (by simp)) fun _ => .bind' fun t _ => ?_
  refine .ite (fun _ => h.steadies_self (by simp)) fun _ => ?_
  refine .ite (fun _ => h.steadies_self (by simp)) fun _ => ?_
  refine .ite (fun hw => .ok ⟨by simp, h.release _ hw.1⟩) fun _ => ?_
  refine .ite (fun _ => h.steadies_self (by simp)) fun _ => h.setTcb_steady ?_ (by simp)
  exact ⟨rfl, rfl, rfl, rfl, rfl, rfl, rfl, rfl, fun _ => ⟨rfl, rfl⟩⟩

theorem Settled.canWup {tskid : Int} (h : Settled a) : Steadies a (canWup tskid a) := by
  unfold Spec.canWup
  refine .ite (fun _ => h.steadies_self (by simp)) fun _ => .bind' fun t _ => ?_
  refine .ite (fun _ => h.steadies_self (by simp)) fun _ => ?_
  refine .ite (fun _ => h.steadies_self (by simp)) fun _ => h.setTcb_steady ?_ (by simp)
  exact ⟨rfl, rfl, rfl, rfl, rfl, rfl, rfl, rfl, fun _ => ⟨rfl, rfl⟩⟩

/-! ## Semaphores -/

theorem Settled._creSem {semid : Int} (pk : TCsem) (h : Settled a) :
    Steadies a (_creSem semid pk a) := by
  unfold Spec._creSem
  refine .ite (fun _ => h.steadies_self (by simp)) fun _ => ?_
  refine .ite (fun _ => h.steadies_self (by simp)) fun _ => .bind' fun i _ => ?_
  refine .ite (fun _ => h.steadies_self (by simp)) fun hs => .ok ⟨by simp, ?_⟩
  exact h.takeSem (not_not.mp hs) (by simp)

theorem Settled.acreSemLoop {pk : TCsem} (h : Settled a) :
    ∀ (n : Nat) (i : Int), Steadies a (acreSemLoop pk a n i)
  | 0, _ => h.steadies_self (by simp)
  | n + 1, i => by
    unfold Spec.acreSemLoop
    refine .bind' fun k _ => .ite (fun _ => ?_) fun _ => h.acreSemLoop n (i + 1)
    refine .bind ((h._creSem pk).mono fun v hv => .ok ⟨?_, hv.2⟩)
    dsimp only
    split
    · simp
    · exact hv.1

/-- The running task sets data of its own and begins to wait for an object. -/
theorem Inv.waits {f : TCB cfg → TCB cfg} {o : ObjId cfg} (tmout : TMO) (h : Inv a)
    (ht : runTcb a = .ok t) (hf : SameStanding (a.core.tcb t) (f (a.core.tcb t)))
    (he : (f (a.core.tcb t)).ercd = .tmout) (ho : (a.core.objcb o).state ≠ .noexs) :
    Steps (some (some o, tmout)) a
      (.ok (((a.setTcb t f).objWait t o tmout).dispatch, .blocked)) := by
  have hr := h.ready_of_runTcb ht
  have hs := (h.toSettled.setTcb hf).settled
  refine .ok (.blocked rfl (runTcb_eq ht)
    ((hs.objWait tmout ?_ ?_ ?_).of_setTcb hf.state hf.tskpri))
  · rw [Model.setTcb_tcb_self, hf.state, hr]
  · rw [Model.setTcb_tcb_self, he]
  · rw [show (a.setTcb t f).core.objcb o = a.core.objcb o from Core.objcb_setTcb o]
    exact ho

theorem Inv._waiSem {semid : Int} {tmout : TMO} (h : Inv a) :
    Steps ((getSemcb semid).toOption.map fun i => (some (.sem i), tmout)) a
      (_waiSem semid tmout a) := by
  have hst := h.toSettled
  unfold Spec._waiSem
  refine .ite (fun _ => (hst.steadies_self (by simp)).steps) fun _ => .bind' fun i hi => ?_
  refine .ite (fun _ => (hst.steadies_self (by simp)).steps) fun hs => .bind' fun t ht => ?_
  have hr := h.ready_of_runTcb ht
  rw [hi]
  refine .ite (fun _ => ?_) fun _ => ?_
  · have h₁ := hst.setSemcb (i := i) (f := fun cb => { cb with semcnt := cb.semcnt - 1 }) rfl
    have h₂ := h₁.settled.setTcb (t := t) (f := fun tcb => { tcb with ercd := .ok })
      (.of_ready hr ⟨rfl, rfl, rfl, rfl, rfl, rfl, rfl⟩)
    exact .ok (.dispatch (by simp) (h₁.trans h₂).toCalm)
  · dsimp only
    refine .ite (fun _ => ?_) fun _ => .ok (.dispatch (by simp) (hst.setTcb ?_).toCalm)
    · exact h.waits tmout ht (.of_ready hr ⟨rfl, rfl, rfl, rfl, rfl, rfl, rfl⟩) rfl hs
    · exact .of_ready hr ⟨rfl, rfl, rfl, rfl, rfl, rfl, rfl⟩

theorem Settled._sigSem {semid : Int} (h : Settled a) : Steadies a (_sigSem semid a) := by
  unfold Spec._sigSem
  refine .ite (fun _ => h.steadies_self (by simp)) fun _ => .bind' fun i _ => ?_
  refine .ite (fun _ => h.steadies_self (by simp)) fun _ => ?_
  split
  · next t ts hq =>
    have hm : t ∈ a.queue (.waitq (.sem i)) := by rw [hq]; simp
    exact .ok ⟨by simp, h.release _ (((h.task t).waitq _).mp hm).1⟩
  · exact .ite (fun _ => h.steadies_self (by simp)) fun _ => .ok ⟨by simp, h.setSemcb rfl⟩

theorem Settled.delSem {semid : Int} {w : Option (Option (ObjId cfg) × TMO)} (h : Settled a) :
    Steps w a (delSem semid a) := by
  unfold Spec.delSem
  refine .ite (fun _ => (h.steadies_self (by simp)).steps) fun _ => .bind' fun i _ => ?_
  refine .ite (fun _ => (h.steadies_self (by simp)).steps) fun hs => ?_
  have h₁ := h.releaseAll (.sem i)
  have h₂ := h₁.settled.giveSem (i := i) (f := fun cb =>
    { cb with obj := { cb.obj with state := .noexs }, semcnt := 0 })
    (by rw [(releaseAll_objects _ a).semcb]; exact hs) (releaseAll_waitq h _) rfl
  exact .ok (.dispatch (by simp) (h₁.trans h₂).toCalm)

theorem Settled.refSem {semid : Int} (h : Settled a) : Steadies a (refSem semid a) := by
  unfold Spec.refSem
  refine .ite (fun _ => h.steadies_self (by simp)) fun _ => .bind' fun i _ => ?_
  exact .ite (fun _ => h.steadies_self (by simp)) fun _ => h.steadies_self (by simp)

/-! ## Eventflags -/

theorem Settled._creFlg {flgid : Int} (pk : TCflg) (h : Settled a) :
    Steadies a (_creFlg flgid pk a) := by
  unfold Spec._creFlg
  refine .ite (fun _ => h.steadies_self (by simp)) fun _ => .bind' fun i _ => ?_
  refine .ite (fun _ => h.steadies_self (by simp)) fun hs => .ok ⟨by simp, ?_⟩
  exact h.setFlgcb fun hq => absurd (h.waitq_eq_nil (o := .flg i) (not_not.mp hs)) hq

theorem Settled.acreFlgLoop {pk : TCflg} (h : Settled a) :
    ∀ (n : Nat) (i : Int), Steadies a (acreFlgLoop pk a n i)
  | 0, _ => h.steadies_self (by simp)
  | n + 1, i => by
    unfold Spec.acreFlgLoop
    refine .bind' fun k _ => .ite (fun _ => ?_) fun _ => h.acreFlgLoop n (i + 1)
    refine .bind ((h._creFlg pk).mono fun v hv => .ok ⟨?_, hv.2⟩)
    dsimp only
    split
    · simp
    · exact hv.1

theorem Settled._setFlg {flgid : Int} {setptn : FLGPTN} (h : Settled a) :
    Steadies a (_setFlg flgid setptn a) := by
  unfold Spec._setFlg
  refine .ite (fun _ => h.steadies_self (by simp)) fun _ => .bind' fun i _ => ?_
  refine .ite (fun _ => h.steadies_self (by simp)) fun _ => .ok ⟨by simp, ?_⟩
  have h₁ := h.setFlgcb (i := i) (f := fun cb => { cb with flgptn := cb.flgptn ||| setptn })
    fun _ => rfl
  exact h₁.trans (h₁.settled.offerAll i)

theorem Settled.clrFlg {flgid : Int} {clrptn : FLGPTN} (h : Settled a) :
    Steadies a (clrFlg flgid clrptn a) := by
  unfold Spec.clrFlg
  refine .ite (fun _ => h.steadies_self (by simp)) fun _ => .bind' fun i _ => ?_
  refine .ite (fun _ => h.steadies_self (by simp)) fun _ => .ok ⟨by simp, ?_⟩
  exact h.setFlgcb fun _ => rfl

theorem Inv._waiFlg {flgid : Int} {waiptn : FLGPTN} {wfmode : MODE} {p : VP} {tmout : TMO}
    (h : Inv a) : Steps ((getFlgcb flgid).toOption.map fun i => (some (.flg i), tmout)) a
      (_waiFlg flgid waiptn wfmode p tmout a) := by
  have hst := h.toSettled
  unfold Spec._waiFlg
  refine .ite (fun _ => (hst.steadies_self (by simp)).steps) fun _ => ?_
  refine .ite (fun _ => (hst.steadies_self (by simp)).steps) fun _ => .bind' fun i hi => ?_
  refine .bind' fun t ht => ?_
  have hr := h.ready_of_runTcb ht
  have hone : ∀ f : TCB cfg → TCB cfg, SameStanding (a.core.tcb t) (f (a.core.tcb t)) →
      ∀ e, Steadies a (.ok (a.setTcb t f, .er e)) :=
    fun f hf e => hst.setTcb_steady hf (by simp)
  rw [hi]
  refine .ite (fun _ => (hone _ ?_ _).steps) fun hs => ?_
  · exact .of_ready hr ⟨rfl, rfl, rfl, rfl, rfl, rfl, rfl⟩
  refine .ite (fun _ => (hone _ ?_ _).steps) fun _ => ?_
  · exact .of_ready hr ⟨rfl, rfl, rfl, rfl, rfl, rfl, rfl⟩
  refine .ite (fun _ => ?_) fun _ => ?_
  · have h₁ := hst.setTcb (t := t) (f := fun tcb => { tcb with ercd := .ok })
      (.of_ready hr ⟨rfl, rfl, rfl, rfl, rfl, rfl, rfl⟩)
    have h₂ := h₁.settled.setRest (f := fun c => { c with
      flgvar := Function.update c.flgvar p (c.flgcb i).flgptn }) rfl rfl rfl rfl rfl
    have h₃ := h₂.settled.setFlgcb (i := i) (f := clearFlgptn) fun _ => clearFlgptn_obj _
    exact .ok (.steady (by simp) (h₁.trans (h₂.trans h₃)))
  · dsimp only
    refine .ite (fun _ => ?_) fun _ => (hone _ ?_ _).steps
    · have hset : ((a.setTcb t fun tcb => { tcb with ercd := .tmout }).setTcb t fun tcb =>
          { tcb with waitinfo := .flg waiptn wfmode p }) = a.setTcb t fun tcb =>
          { tcb with ercd := .tmout, waitinfo := .flg waiptn wfmode p } := Model.setTcb_setTcb ..
      rw [hset]
      exact h.waits tmout ht (.of_ready hr ⟨rfl, rfl, rfl, rfl, rfl, rfl, rfl⟩) rfl hs
    · exact .of_ready hr ⟨rfl, rfl, rfl, rfl, rfl, rfl, rfl⟩

theorem Settled.refFlg {flgid : Int} (h : Settled a) : Steadies a (refFlg flgid a) := by
  unfold Spec.refFlg
  refine .ite (fun _ => h.steadies_self (by simp)) fun _ => .bind' fun i _ => ?_
  exact .ite (fun _ => h.steadies_self (by simp)) fun _ => h.steadies_self (by simp)

theorem Settled.delFlg {flgid : Int} {w : Option (Option (ObjId cfg) × TMO)} (h : Settled a) :
    Steps w a (delFlg flgid a) := by
  unfold Spec.delFlg
  refine .ite (fun _ => (h.steadies_self (by simp)).steps) fun _ => .bind' fun i _ => ?_
  refine .ite (fun _ => (h.steadies_self (by simp)).steps) fun _ => ?_
  have h₁ := h.releaseAll (.flg i)
  have h₂ := h₁.settled.setFlgcb (i := i) (f := fun cb =>
    { cb with obj := { cb.obj with state := .noexs }, flgptn := 0 })
    fun hq => absurd (releaseAll_waitq h _) hq
  exact .ok (.dispatch (by simp) (h₁.trans h₂).toCalm)

/-! ## Mailboxes -/

theorem Settled._creMbx {mbxid : Int} (pk : TCmbx) (h : Settled a) :
    Steadies a (_creMbx mbxid pk a) := by
  unfold Spec._creMbx
  refine .ite (fun _ => h.steadies_self (by simp)) fun _ => .bind' fun i _ => ?_
  refine .ite (fun _ => h.steadies_self (by simp)) fun hs => .ok ⟨by simp, ?_⟩
  have h₁ := h.setMbxcb (i := i) (f := fun cb =>
    { cb with obj := { objatr := pk.mbxatr, state := .rdy } })
    fun hq => absurd (h.waitq_eq_nil (o := .mbx i) (not_not.mp hs)) hq
  exact h₁.trans (h₁.settled.setRest rfl rfl rfl rfl rfl)

theorem Settled.acreMbxLoop {pk : TCmbx} (h : Settled a) :
    ∀ (n : Nat) (i : Int), Steadies a (acreMbxLoop pk a n i)
  | 0, _ => h.steadies_self (by simp)
  | n + 1, i => by
    unfold Spec.acreMbxLoop
    refine .bind' fun k _ => .ite (fun _ => ?_) fun _ => h.acreMbxLoop n (i + 1)
    refine .bind ((h._creMbx pk).mono fun v hv => .ok ⟨?_, hv.2⟩)
    dsimp only
    split
    · simp
    · exact hv.1

/-- What a call leaves alone that moves messages only. -/
structure SameButMessages (c c' : Core cfg) : Prop where
  tcb : c'.tcb = c.tcb
  semcb : c'.semcb = c.semcb
  flgcb : c'.flgcb = c.flgcb
  mbxobj : ∀ i, (c'.mbxcb i).obj = (c.mbxcb i).obj
  timerNesting : c'.timerNesting = c.timerNesting

theorem Settled.setMessages {c : Core cfg} (h : Settled a) (hc : SameButMessages a.core c) :
    Steady a { a with core := c } := by
  refine h.setObjs (f := fun _ => c) hc.tcb (fun o _ => ?_) (fun i => by rw [hc.semcb])
    hc.timerNesting
  cases o with
  | sem i => simp only [Core.objcb, hc.semcb]
  | flg i => simp only [Core.objcb, hc.flgcb]
  | mbx i => exact hc.mbxobj i

theorem enqueueMsg_same (m : Fin cfg.nmsg) (i : MbxIx cfg) (c : Core cfg) :
    Ensures (enqueueMsg m i c) (SameButMessages c) := by
  unfold enqueueMsg
  refine .ite (fun _ => .bind' fun _ _ => .ok ⟨rfl, rfl, rfl, fun _ => rfl, rfl⟩) fun _ => .ok ?_
  have hobj : ∀ (c : Core cfg) (j : MbxIx cfg),
      ((c.setMbxcb i fun cb => { cb with mqTail := .pkt m }).mbxcb j).obj = (c.mbxcb j).obj := by
    intro c j
    by_cases hj : j = i
    · subst hj; simp [Core.setMbxcb]
    · simp [Core.setMbxcb, hj]
  unfold appendMsg
  dsimp only
  split <;> exact ⟨rfl, rfl, rfl, fun j => hobj _ j, rfl⟩

theorem Settled._sndMbx {mbxid : Int} {m : Fin cfg.nmsg} (h : Settled a) :
    Steadies a (_sndMbx mbxid m a) := by
  unfold Spec._sndMbx
  refine .ite (fun _ => h.steadies_self (by simp)) fun _ => .bind' fun i _ => ?_
  refine .ite (fun _ => h.steadies_self (by simp)) fun _ => ?_
  refine .ite (fun _ => h.steadies_self (by simp)) fun _ => ?_
  split
  · next t ts hq =>
    have hm : t ∈ a.queue (.waitq (.mbx i)) := by rw [hq]; simp
    exact .ok ⟨by simp, h.handOver m (((h.task t).waitq _).mp hm).1⟩
  · exact .bind ((enqueueMsg_same m i a.core).mono fun c hc =>
      .ok ⟨by simp, h.setMessages hc⟩)

theorem Inv._rcvMbx {mbxid : Int} {p : VP} {tmout : TMO} (h : Inv a) :
    Steps ((getMbxcb mbxid).toOption.map fun i => (some (.mbx i), tmout)) a
      (_rcvMbx mbxid p tmout a) := by
  have hst := h.toSettled
  unfold Spec._rcvMbx
  refine .ite (fun _ => (hst.steadies_self (by simp)).steps) fun _ => ?_
  refine .ite (fun _ => (hst.steadies_self (by simp)).steps) fun _ => .bind' fun i hi => ?_
  refine .bind' fun t ht => ?_
  have hr := h.ready_of_runTcb ht
  have hone : ∀ f : TCB cfg → TCB cfg, SameStanding (a.core.tcb t) (f (a.core.tcb t)) →
      ∀ e, Steadies a (.ok (a.setTcb t f, .er e)) :=
    fun f hf e => hst.setTcb_steady hf (by simp)
  rw [hi]
  refine .ite (fun _ => (hone _ ?_ _).steps) fun hs => ?_
  · exact .of_ready hr ⟨rfl, rfl, rfl, rfl, rfl, rfl, rfl⟩
  refine .ite (fun _ => ?_) fun _ => ?_
  · have h₁ := hst.setTcb (t := t) (f := fun tcb => { tcb with ercd := .ok })
      (.of_ready hr ⟨rfl, rfl, rfl, rfl, rfl, rfl, rfl⟩)
    have h₂ := h₁.settled.setRest (f := dequeueMsg i p) rfl rfl rfl rfl rfl
    exact .ok (.steady (by simp) (h₁.trans h₂))
  · dsimp only
    refine .ite (fun _ => ?_) fun _ => (hone _ ?_ _).steps
    · have hset : ((a.setTcb t fun tcb => { tcb with ercd := .tmout }).setTcb t fun tcb =>
          { tcb with waitinfo := .mbx p }) = a.setTcb t fun tcb =>
          { tcb with ercd := .tmout, waitinfo := .mbx p } := Model.setTcb_setTcb ..
      rw [hset]
      exact h.waits tmout ht (.of_ready hr ⟨rfl, rfl, rfl, rfl, rfl, rfl, rfl⟩) rfl hs
    · exact .of_ready hr ⟨rfl, rfl, rfl, rfl, rfl, rfl, rfl⟩

theorem Settled.refMbx {mbxid : Int} (h : Settled a) : Steadies a (refMbx mbxid a) := by
  unfold Spec.refMbx
  refine .ite (fun _ => h.steadies_self (by simp)) fun _ => .bind' fun i _ => ?_
  exact .ite (fun _ => h.steadies_self (by simp)) fun _ => h.steadies_self (by simp)

theorem Settled.delMbx {mbxid : Int} {w : Option (Option (ObjId cfg) × TMO)} (h : Settled a) :
    Steps w a (delMbx mbxid a) := by
  unfold Spec.delMbx
  refine .ite (fun _ => (h.steadies_self (by simp)).steps) fun _ => .bind' fun i _ => ?_
  refine .ite (fun _ => (h.steadies_self (by simp)).steps) fun _ => ?_
  have h₁ := h.releaseAll (.mbx i)
  have h₂ := h₁.settled.setMbxcb (i := i) (f := fun cb =>
    { cb with obj := { cb.obj with state := .noexs } })
    fun hq => absurd (releaseAll_waitq h _) hq
  have h₃ := h₂.settled.setRest (f := setNextmsg (.mqHead i) .null) rfl rfl rfl rfl rfl
  exact .ok (.dispatch (by simp) (h₁.trans (h₂.trans h₃)).toCalm)

/-! ## All steps -/

/-- **What a step can do.** -/
theorem exec_step {c : Call cfg} (h : Inv a) (hs : Sound a.core c) :
    Steps (Call.wait c) a (exec c a) := by
  have hst := h.toSettled
  have hsame : ∀ r : Ret cfg, r ≠ .blocked → Steadies a (.ok (a, r)) :=
    fun r hr => hst.steadies_self hr
  cases c with
  | creTsk tskid pk => exact (hst.creTsk hs).steps
  | acreTsk pk => exact (hst.acreTskLoop hs _ _).steps
  | delTsk tskid => exact hst.delTsk
  | actTsk tskid => exact hst._actTsk.dispatchIfOk
  | iactTsk tskid => exact hst._actTsk.steps
  | chgPri tskid tskpri => exact h.chgPri hs
  | rotRdq tskpri => exact hst.rotRdq
  | extTsk => exact h.extTsk
  | dlyTsk dlytim => exact h.dlyTsk
  | susTsk tskid => exact h.susTsk
  | rsmTsk tskid => exact hst.rsmTsk
  | slpTsk => exact h._slpTsk
  | tslpTsk tmout => exact h._slpTsk
  | wupTsk tskid => exact hst._wupTsk.dispatchIfOk
  | iwupTsk tskid => exact hst._wupTsk.steps
  | canWup tskid => exact hst.canWup.steps
  | creSem semid pk =>
    exact .ite (fun _ => (hsame _ (by simp)).steps) fun _ => (hst._creSem _).steps
  | acreSem pk => exact (hst.acreSemLoop _ _).steps
  | waiSem semid => exact h._waiSem
  | twaiSem semid tmout => exact h._waiSem
  | polSem semid => exact h._waiSem
  | sigSem semid => exact hst._sigSem.dispatchAll
  | isigSem semid => exact hst._sigSem.steps
  | delSem semid => exact hst.delSem
  | refSem semid => exact hst.refSem.steps
  | creFlg flgid pk =>
    exact .ite (fun _ => (hsame _ (by simp)).steps) fun _ => (hst._creFlg _).steps
  | acreFlg pk => exact (hst.acreFlgLoop _ _).steps
  | setFlg flgid setptn => exact hst._setFlg.dispatchAll
  | isetFlg flgid setptn => exact hst._setFlg.steps
  | clrFlg flgid clrptn => exact hst.clrFlg.steps
  | waiFlg flgid waiptn wfmode p => exact h._waiFlg
  | twaiFlg flgid waiptn wfmode p tmout => exact h._waiFlg
  | polFlg flgid waiptn wfmode p => exact h._waiFlg
  | refFlg flgid => exact hst.refFlg.steps
  | delFlg flgid => exact hst.delFlg
  | creMbx mbxid pk =>
    exact .ite (fun _ => (hsame _ (by simp)).steps) fun _ => (hst._creMbx _).steps
  | acreMbx pk => exact (hst.acreMbxLoop _ _).steps
  | sndMbx mbxid m => exact hst._sndMbx.dispatchAll
  | rcvMbx mbxid p => exact h._rcvMbx
  | trcvMbx mbxid p tmout => exact h._rcvMbx
  | prcvMbx mbxid p => exact h._rcvMbx
  | refMbx mbxid => exact hst.refMbx.steps
  | delMbx mbxid => exact hst.delMbx
  | timerHandler => exact .ok (.steady (by simp) (hst.timerHandler h.timerNesting))
  | dispatch => exact .ok (.dispatch (by simp) (.refl hst))
  | setMsgpri m pri =>
    exact .ok (.steady (by simp) (hst.setMessages ⟨rfl, rfl, rfl, fun _ => rfl, rfl⟩))

/-- Only a call that waits blocks, and then its caller has begun to wait. -/
theorem exec_blocks {c : Call cfg} (h : Inv a) (hs : Sound a.core c)
    (he : exec c a = .ok (a', .blocked)) :
    ∃ t o tmout b, Call.wait c = some (o, tmout) ∧ a.runtsk = some t ∧ Blocked t o tmout a b ∧
      a' = b.dispatch := by
  cases exec_step h hs _ he with
  | steady hr _ => exact absurd rfl hr
  | dispatch hr _ => exact absurd rfl hr
  | blocked hw hrun hb => exact ⟨_, _, _, _, hw, hrun, hb, rfl⟩

/-- **Every step keeps the invariant.** -/
theorem exec_inv {c : Call cfg} (h : Inv a) (hs : Sound a.core c) (he : exec c a = .ok (a', r)) :
    Inv a' := by
  cases exec_step h hs _ he with
  | steady _ hst => exact h.steady hst
  | dispatch _ hc => exact h.dispatch hc
  | blocked _ _ hb =>
    exact { toSettled := (Calm.refl hb.settled).dispatch.settled
            runtsk := fun _ ht => hb.settled.ready_of_top ht
            timerNesting := hb.others.objects.timerNesting.trans h.timerNesting }

end Ittrium.Spec
