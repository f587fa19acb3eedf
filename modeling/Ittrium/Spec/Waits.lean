import Ittrium.Spec.Changes

/-!
# Waits and suspension

* `Blocked t o tmout a a'` — the ready task `t` has begun to wait, nothing else has happened
* `Settled.sleep`, `Settled.objWait` — the two kinds of waits
* `Settled.suspend`, `Settled.resume`
-/

namespace Ittrium.Spec

open Infra

variable {cfg : Config} {a a' : Model cfg} {l : Line cfg} {t u : TskIx cfg} {o : ObjId cfg}
  {e : ER} {tmout : TMO}

/-! ## A wait begins -/

/-- The place a task takes in the line of an object. -/
def joinWaitq (c : Core cfg) (o : ObjId cfg) (t : TskIx cfg) (l : List (TskIx cfg)) :
    List (TskIx cfg) :=
  if (c.objcb o).objatr &&& taTpri ≠ 0 then insertStable (fun u => (c.tcb u).tskpri) t l
  else l ++ [t]

/-- The ready task `t` has begun to wait, for the object `o` if there is one. -/
structure Blocked (t : TskIx cfg) (o : Option (ObjId cfg)) (tmout : TMO) (a a' : Model cfg) :
    Prop where
  settled : Settled a'
  others : Others t a a'
  was : (a.core.tcb t).state = .rdy
  wait : (a'.core.tcb t).state = .wai
  waitObj : (a'.core.tcb t).waitObj = o
  tskpri : (a'.core.tcb t).tskpri = (a.core.tcb t).tskpri
  timer : t ∈ a'.queue .timer ↔ tmout ≠ tmoFevr
  joins : ∀ o', o = some o' →
    a'.queue (.waitq o') = joinWaitq a.core o' t (a.queue (.waitq o'))
  waitq : ∀ o', o ≠ some o' → a'.queue (.waitq o') = a.queue (.waitq o')

/-- Nobody's priority changes when a task begins to wait. -/
theorem Blocked.tskpri_all {o : Option (ObjId cfg)}
    (h : Blocked t o tmout a a') (u : TskIx cfg) :
    (a'.core.tcb u).tskpri = (a.core.tcb u).tskpri := by
  by_cases hu : u = t
  · exact hu ▸ h.tskpri
  · rw [h.others.tcb u hu]

/-- A task that has left its lines begins to wait. -/
theorem Apart.startTimer (h : Apart t a) (hT : TcbInv (a.core.tcb t))
    (hs : (a.core.tcb t).state = .wai) {b : Model cfg} {o : Option (ObjId cfg)}
    (hb : b.core = (a.startTimer t tmout).core) (ho : (a.core.tcb t).waitObj = o)
    (hex : ∀ o', o = some o' → (a.core.objcb o').state ≠ .noexs)
    (hmem : ∀ l u, u ∈ b.queue l ↔ u ∈ (a.startTimer t tmout).queue l ∨
      (u = t ∧ ∃ o', o = some o' ∧ l = .waitq o'))
    (hnd : ∀ l, (b.queue l).Nodup) (hfree : b.freeSem = a.freeSem) (hrun : b.runtsk = a.runtsk) :
    Settled b := by
  obtain ⟨m, hcb, harg, htcb⟩ := Model.startTimer_tcb t tmout a
  have hstart := Others.startTimer tmout t a
  have hoth : Others t a b :=
    { tcb := fun u hu => by rw [hb]; exact hstart.tcb u hu
      mem := fun u hu l => by
        rw [hmem]
        simpa [hu] using hstart.mem u hu l
      objects := hb ▸ hstart.objects
      freeSem := hfree
      runtsk := hrun }
  -- `t` stood in no line before, so these are all it stands in
  have hon : ∀ l, t ∈ b.queue l ↔ (l = .timer ∧ tmout ≠ tmoFevr) ∨
      ∃ o', o = some o' ∧ l = .waitq o' := by
    intro l
    rw [hmem]
    by_cases hl : l = .timer
    · subst hl
      rw [Model.startTimer_timer]
      split <;> simp_all [h.nowhere]
    · rw [Model.startTimer_queue_of_ne hl]
      simp [hl, h.nowhere l]
  refine h.settle hoth hnd (fun o' hm => ?_) ?_
  · rcases (hon _).mp hm with ⟨hl, -⟩ | ⟨o'', ho'', hl⟩
    · cases hl
    · cases hl
      exact hex o' ho''
  · rw [hb, htcb]
    refine { toTcbInv := ?_, ready := fun p => ?_, waitq := fun o' => ?_, timer := fun _ => ?_
             free := ?_ }
    · exact { notRun := hT.notRun, itskpri := hT.itskpri, tskpri := hT.tskpri
              suscnt := hT.suscnt, tskwait := hT.tskwait, ercd := hT.ercd }
    · simp [hon, hs]
    · simp [hon, hs, ho, Stat.waiting_iff]
    · exact ⟨by simp [hs, Stat.waiting_iff], hcb, harg⟩
    · simp [hon, hs]

namespace Model

theorem makeUnready_setTcb {f : TCB cfg → TCB cfg}
    (hf : (f (a.core.tcb t)).tskpri = (a.core.tcb t).tskpri) :
    (a.setTcb t f).makeUnready t = (a.makeUnready t).setTcb t f := by
  unfold makeUnready
  rw [setTcb_tcb_self, hf]
  rfl

theorem nodup_startTimer (hnd : ∀ l, (a.queue l).Nodup) (ht : t ∉ a.queue .timer)
    (l : Line cfg) : ((a.startTimer t tmout).queue l).Nodup := by
  unfold startTimer
  dsimp only
  split
  · exact hnd l
  · exact nodup_enq hnd ht l

theorem startWait_queue_of_ne (hr : ∀ p, l ≠ .ready p) (ht : l ≠ .timer) :
    (a.startWait t tmout).queue l = a.queue l :=
  (startTimer_queue_of_ne ht).trans (makeUnready_queue_of_ne hr)

theorem startWait_tcb (t : TskIx cfg) (tmout : TMO) (a : Model cfg) :
    ∃ m : TMEB cfg,
      (a.startWait t tmout).core.tcb t = { a.core.tcb t with state := .wai, wtmeb := m } := by
  obtain ⟨m, -, -, h⟩ := startTimer_tcb t tmout
    ((a.makeUnready t).setTcb t fun tcb => { tcb with state := .wai })
  exact ⟨m, by rw [startWait, h, setTcb_tcb_self]; rfl⟩

end Model

section

variable {f : TCB cfg → TCB cfg}

/-- A ready task has left its lines for a wait. -/
theorem Settled.apart_startWait (h : Settled a) (ht : (a.core.tcb t).state = .rdy)
    (hf : (f (a.core.tcb t)).tskpri = (a.core.tcb t).tskpri) :
    Apart t (((a.setTcb t f).makeUnready t).setTcb t fun tcb => { tcb with state := .wai }) := by
  rw [Model.makeUnready_setTcb hf]
  exact ((h.apart_makeUnready ht).setTcb f).setTcb _

/-- The control block of a task that begins to wait. -/
theorem TcbInv.of_startWait {tcb : TCB cfg} (f : TCB cfg → TCB cfg) (hT : TcbInv tcb) (ht : tcb.state = .rdy)
    (hf : (f tcb).itskpri = tcb.itskpri ∧ (f tcb).tskpri = tcb.tskpri ∧
      (f tcb).suscnt = tcb.suscnt)
    (hwhy : (f tcb).tskwait ≠ .none ↔ (f tcb).waitObj = none)
    (he : (f tcb).waitObj ≠ none → (f tcb).ercd = .tmout) :
    TcbInv { f tcb with state := .wai } where
  notRun := by simp
  itskpri := fun _ => by rw [hf.1]; exact hT.itskpri (by simp [ht])
  tskpri := fun _ => by rw [hf.2.1]; exact hT.tskpri (by simp [ht])
  suscnt := fun _ => by
    rw [hf.2.2]
    simpa [ht] using hT.suscnt (by simp [ht])
  tskwait := fun _ => by simpa [Stat.waiting_iff] using hwhy
  ercd := fun _ => he

/-- The task is in the timer queue unless it waits for ever. -/
theorem Settled.startWait_timer (tmout : TMO) (h : Settled a) (ht : (a.core.tcb t).state = .rdy) :
    t ∈ ((a.setTcb t f).startWait t tmout).queue .timer ↔ tmout ≠ tmoFevr := by
  have hno : t ∉ a.queue .timer := by
    intro hm
    have := ((h.task t).timer hm).1
    simp [ht, Stat.waiting_iff] at this
  rw [Model.startWait, Model.startTimer_timer]
  have hq : ((a.setTcb t f).makeUnready t).queue .timer = a.queue .timer :=
    Model.makeUnready_queue_of_ne (a := a.setTcb t f) (by simp)
  simp only [Model.setTcb, Model.setCore] at hq ⊢
  rw [hq]
  split <;> simp_all

/-- A ready task begins to wait, and gets to the lines `b` says. -/
theorem Settled.startWait (h : Settled a) (ht : (a.core.tcb t).state = .rdy)
    (hf : (f (a.core.tcb t)).tskpri = (a.core.tcb t).tskpri)
    (hT : TcbInv { f (a.core.tcb t) with state := .wai }) {o : Option (ObjId cfg)}
    (ho : (f (a.core.tcb t)).waitObj = o)
    (hex : ∀ o', o = some o' → (a.core.objcb o').state ≠ .noexs) {b : Model cfg}
    (hb : b.core = ((a.setTcb t f).startWait t tmout).core)
    (hmem : ∀ l u, u ∈ b.queue l ↔ u ∈ ((a.setTcb t f).startWait t tmout).queue l ∨
      (u = t ∧ ∃ o', o = some o' ∧ l = .waitq o'))
    (hnd : ∀ l, (b.queue l).Nodup) (hfree : b.freeSem = a.freeSem) (hrun : b.runtsk = a.runtsk) :
    Settled b := by
  have htcb : (((a.setTcb t f).makeUnready t).setTcb t fun tcb =>
      { tcb with state := .wai }).core.tcb t = { f (a.core.tcb t) with state := .wai } := by
    rw [Model.setTcb_tcb_self]
    exact congrArg (fun tcb : TCB cfg => { tcb with state := .wai }) Model.setTcb_tcb_self
  refine (h.apart_startWait ht hf).startTimer ?_ ?_ hb (o := o) ?_ ?_ hmem hnd hfree hrun
  · rw [htcb]; exact hT
  · rw [htcb]
  · rw [htcb]; exact ho
  · intro o' ho'
    rw [show (((a.setTcb t f).makeUnready t).setTcb t _).core.objcb o' = a.core.objcb o' from
      (Core.objcb_setTcb o').trans (Core.objcb_setTcb o')]
    exact hex o' ho'

theorem Settled.nodup_startWait (tmout : TMO) (h : Settled a) (ht : (a.core.tcb t).state = .rdy)
    (hf : (f (a.core.tcb t)).tskpri = (a.core.tcb t).tskpri) (l : Line cfg) :
    (((a.setTcb t f).startWait t tmout).queue l).Nodup :=
  Model.nodup_startTimer (h.apart_startWait ht hf).nodup ((h.apart_startWait ht hf).nowhere _) l

end

/-- **The running task sleeps or is delayed.** -/
theorem Settled.sleep {why : TskWait} (tmout : TMO) (h : Settled a)
    (ht : (a.core.tcb t).state = .rdy) (hwhy : why ≠ .none) :
    Blocked t none tmout a (a.sleep t why tmout) := by
  have hoth : Others t a (a.sleep t why tmout) :=
    (Others.setTcb t _ a).trans (.startWait tmout h.nodup)
  obtain ⟨m, htcb⟩ := Model.startWait_tcb t tmout
    (a.setTcb t fun tcb => { tcb with waitObj := none, tskwait := why })
  rw [Model.setTcb_tcb_self] at htcb
  refine { settled := ?_, others := hoth, was := ht, wait := ?_, waitObj := ?_, tskpri := ?_
           timer := h.startWait_timer tmout ht, joins := by simp
           waitq := fun o' _ => Model.startWait_queue_of_ne (by simp) (by simp) }
  · have hT := (h.task t).toTcbInv.of_startWait
      (fun tcb => { tcb with waitObj := none, tskwait := why }) ht ⟨rfl, rfl, rfl⟩
      (by simp [hwhy]) (by simp)
    exact h.startWait ht (f := fun tcb => { tcb with waitObj := none, tskwait := why }) rfl hT
      rfl (by simp) rfl (by simp [Model.sleep]) (h.nodup_startWait tmout ht rfl) hoth.freeSem
      hoth.runtsk
  all_goals rw [Model.sleep, htcb]

/-- The timer is set and the ready task is about to join the line of `o`. -/
theorem Settled.objStartWait (tmout : TMO) (o : ObjId cfg) (h : Settled a)
    (ht : (a.core.tcb t).state = .rdy) (he : (a.core.tcb t).ercd = .tmout)
    (hex : (a.core.objcb o).state ≠ .noexs) {b b' : Model cfg}
    (hb : b = (a.setTcb t fun tcb => { tcb with waitObj := some o }).startWait t tmout)
    (hj : b' = b.enq (.waitq o) t ∨ b' = b.enqPri (.waitq o) t)
    (hq : b'.queue (.waitq o) = joinWaitq a.core o t (a.queue (.waitq o))) :
    Blocked t (some o) tmout a b' := by
  have hT := (h.task t).toTcbInv
  have hnone : (a.core.tcb t).tskwait = .none := by
    simpa [ht, Stat.waiting_iff] using hT.tskwait (by simp [ht])
  obtain ⟨m, htcb⟩ := Model.startWait_tcb t tmout
    (a.setTcb t fun tcb => { tcb with waitObj := some o })
  rw [Model.setTcb_tcb_self, ← hb] at htcb
  have hwaitq : ∀ o', b.queue (.waitq o') = a.queue (.waitq o') :=
    fun o' => hb ▸ Model.startWait_queue_of_ne (by simp) (by simp)
  -- a ready task waits for nothing, so it joins the line once
  have hno : t ∉ b.queue (.waitq o) := by
    rw [hwaitq]
    intro hm
    have := ((h.task t).waitq o).mp hm
    simp [ht, Stat.waiting_iff] at this
  have hnd : ∀ l, (b.queue l).Nodup := fun l => hb ▸ h.nodup_startWait tmout ht rfl l
  have hoth : Others t a b := hb ▸ (Others.setTcb t _ a).trans (.startWait tmout h.nodup)
  have hoth' : Others t a b' := by
    rcases hj with rfl | rfl
    · exact hoth.trans (.enq _ t b)
    · exact hoth.trans (.enqPri _ t b)
  have hcore : b'.core = b.core := by rcases hj with rfl | rfl <;> rfl
  have hmem : ∀ l u, u ∈ b'.queue l ↔ u ∈ b.queue l ∨ (l = .waitq o ∧ u = t) := by
    intro l u
    rcases hj with rfl | rfl
    · exact Model.mem_enq
    · exact Model.mem_enqPri
  have hnd' : ∀ l, (b'.queue l).Nodup := by
    rcases hj with rfl | rfl
    · exact Model.nodup_enq hnd hno
    · exact Model.nodup_enqPri hnd hno
  refine { settled := ?_, others := hoth', was := ht, wait := ?_, waitObj := ?_, tskpri := ?_
           timer := ?_, joins := ?_, waitq := ?_ }
  · have hT' := hT.of_startWait (fun tcb => { tcb with waitObj := some o }) ht ⟨rfl, rfl, rfl⟩
      (by simp [hnone]) fun _ => he
    refine h.startWait ht (f := fun tcb => { tcb with waitObj := some o }) rfl hT' rfl
      (fun o' ho' => by cases ho'; exact hex) (hcore.trans (by rw [hb])) (fun l u => ?_)
      hnd' hoth'.freeSem hoth'.runtsk
    rw [hmem, hb]
    simp [and_comm]
  · rw [hcore, htcb]
  · rw [hcore, htcb]
  · rw [hcore, htcb]
  · rw [hmem, hb, h.startWait_timer tmout ht]
    simp
  · rintro o' ⟨⟩
    exact hq
  · intro o' ho'
    rw [← hwaitq]
    rcases hj with rfl | rfl
    · exact Model.enq_of_ne (by simpa [eq_comm] using ho')
    · exact Model.enqPri_of_ne (by simpa [eq_comm] using ho')

/-- Data of the task itself may have changed before. -/
theorem Blocked.of_setTcb {f : TCB cfg → TCB cfg} {o : Option (ObjId cfg)}
    (h : Blocked t o tmout (a.setTcb t f) a')
    (hs : (f (a.core.tcb t)).state = (a.core.tcb t).state)
    (hp : (f (a.core.tcb t)).tskpri = (a.core.tcb t).tskpri) : Blocked t o tmout a a' where
  settled := h.settled
  others := (Others.setTcb t f a).trans h.others
  was := by rw [← hs, ← h.was, Model.setTcb_tcb_self]
  wait := h.wait
  waitObj := h.waitObj
  tskpri := by rw [h.tskpri, Model.setTcb_tcb_self, hp]
  timer := h.timer
  joins := fun o' ho' => by
    have hpri : (fun u => ((a.setTcb t f).core.tcb u).tskpri) = fun u => (a.core.tcb u).tskpri := by
      funext u
      by_cases hu : u = t
      · rw [hu, Model.setTcb_tcb_self, hp]
      · rw [Model.setTcb_tcb_of_ne hu]
    rw [h.joins o' ho', joinWaitq, joinWaitq, hpri,
      show (a.setTcb t f).core.objcb o' = a.core.objcb o' from Core.objcb_setTcb o']
    rfl
  waitq := h.waitq

/-- **The running task waits for an object.** -/
theorem Settled.objWait (tmout : TMO) (h : Settled a) (ht : (a.core.tcb t).state = .rdy)
    (he : (a.core.tcb t).ercd = .tmout) (hex : (a.core.objcb o).state ≠ .noexs) :
    Blocked t (some o) tmout a (a.objWait t o tmout) := by
  obtain ⟨m, htcb⟩ := Model.startWait_tcb t tmout
    (a.setTcb t fun tcb => { tcb with waitObj := some o })
  rw [Model.setTcb_tcb_self] at htcb
  have hoth : Others t a
      ((a.setTcb t fun tcb => { tcb with waitObj := some o }).startWait t tmout) :=
    (Others.setTcb t _ a).trans (.startWait tmout h.nodup)
  have hpri : (fun u => (((a.setTcb t fun tcb => { tcb with waitObj := some o }).startWait t
      tmout).core.tcb u).tskpri) = fun u => (a.core.tcb u).tskpri := by
    funext u
    by_cases hu : u = t
    · rw [hu, htcb]
    · rw [hoth.tcb u hu]
  have hwaitq : ((a.setTcb t fun tcb => { tcb with waitObj := some o }).startWait t tmout).queue
      (.waitq o) = a.queue (.waitq o) :=
    Model.startWait_queue_of_ne (by simp) (by simp)
  unfold Model.objWait
  dsimp only
  rw [hoth.objects.objcb]
  split
  · next hattr =>
    refine h.objStartWait tmout o ht he hex rfl (.inr rfl) ?_
    simp only [Model.enqPri, Function.update_self, joinWaitq, if_pos hattr, hwaitq]
    rw [hpri]
  · next hattr =>
    refine h.objStartWait tmout o ht he hex rfl (.inl rfl) ?_
    simp only [Model.enq, Function.update_self, joinWaitq, if_neg hattr, hwaitq]

/-! ## Suspension -/

/-- Only data of `t` has changed, and its wait is the same if it has one. -/
theorem Calm.of_wait (hs : Settled a') (ho : Others t a a') (hq : a'.queue = a.queue)
    (hw : (a'.core.tcb t).state.waiting →
      (a.core.tcb t).state.waiting ∧ SameWait (a.core.tcb t) (a'.core.tcb t)) : Calm a a' where
  settled := hs
  timerNesting := ho.objects.timerNesting
  sub := fun o => hq ▸ .refl _
  keep := fun u hu => by
    rw [hq]
    by_cases he : u = t
    · subst he
      exact ⟨(hw hu).1, (hw hu).2, Iff.rfl⟩
    · rw [ho.tcb u he] at hu ⊢
      exact ⟨hu, .refl _, Iff.rfl⟩
  attr := fun o _ => by rw [ho.objects.objcb]

/-- **A task that exists and is not dormant is suspended.** -/
theorem Settled.suspend (h : Settled a) (h₁ : (a.core.tcb t).state ≠ .noexs)
    (h₂ : (a.core.tcb t).state ≠ .dmt) : Calm a (a.suspend t) := by
  have hT := (h.task t).toTcbInv
  have hi := hT.itskpri h₁
  have hp := hT.tskpri h₁
  have hsus := hT.suscnt h₁
  have hwait := hT.tskwait h₁
  unfold Model.suspend
  dsimp only
  split
  -- a ready task leaves its line and stands in none
  · next hr =>
    have hap := ((h.apart_makeUnready hr).setTcb fun tcb =>
      { tcb with suscnt := tcb.suscnt + 1 }).setTcb fun tcb => { tcb with state := .sus }
    rw [Model.makeUnready_setTcb rfl]
    have htcb : ((((a.makeUnready t).setTcb t fun tcb =>
        { tcb with suscnt := tcb.suscnt + 1 }).setTcb t fun tcb =>
        { tcb with state := .sus }).core.tcb t) =
        { a.core.tcb t with suscnt := (a.core.tcb t).suscnt + 1, state := .sus } := by
      rw [Model.setTcb_tcb_self, Model.setTcb_tcb_self]
      rfl
    refine .of_others (hap.rest ?_ ?_)
      ((Others.makeUnready h.nodup).trans ((Others.setTcb t _ _).trans (.setTcb t _ _)))
      ?_ fun o => ?_
    · rw [htcb]
      exact { notRun := by simp, itskpri := fun _ => hi, tskpri := fun _ => hp
              suscnt := fun _ => by
                dsimp only
                refine ⟨by omega, by simp; omega⟩
              tskwait := fun _ => by simpa [hr, Stat.waiting_iff] using hwait
              ercd := by simp [Stat.waiting_iff] }
    · rw [htcb]
      exact Or.inr rfl
    · rw [htcb]
      simp [Stat.waiting_iff]
    · show ((a.makeUnready t).queue (.waitq o)).Sublist _
      rw [Model.makeUnready_queue_of_ne (by simp)]
  · next hr =>
    split
    -- a waiting task stays in the lines where it waits
    · next hw =>
      have hT' := h.task t
      have htcb : ((a.setTcb t fun tcb => { tcb with suscnt := tcb.suscnt + 1 }).setTcb t
          fun tcb => { tcb with state := .was }).core.tcb t =
          { a.core.tcb t with suscnt := (a.core.tcb t).suscnt + 1, state := .was } := by
        rw [Model.setTcb_tcb_self, Model.setTcb_tcb_self]
      have hoth := (Others.setTcb t (fun tcb => { tcb with suscnt := tcb.suscnt + 1 }) a).trans
        (.setTcb t (fun tcb => { tcb with state := .was }) _)
      refine .of_wait (h.settle hoth rfl ?_) hoth rfl fun _ => ⟨hw, ?_⟩
      · rw [htcb]
        refine { notRun := by simp, itskpri := fun _ => hi, tskpri := fun _ => hp
                 suscnt := fun _ => ?_, tskwait := fun _ => ?_, ercd := fun _ => hT.ercd hw
                 ready := fun p => ?_, waitq := fun o => ?_, timer := fun hm => ?_, free := ?_ }
        · dsimp only
          refine ⟨by omega, by simp; omega⟩
        · simpa [hw, Stat.waiting_iff] using hwait
        · simp [hT'.ready, hr]
        · simp [hT'.waitq, hw, Stat.waiting_iff]
        · exact ⟨by simp [Stat.waiting_iff], (hT'.timer hm).2⟩
        · simp [hT'.free, h₁]
      · rw [htcb]
        exact ⟨rfl, rfl, rfl, rfl, rfl⟩
    · next hw =>
      -- it is suspended already, and only the count changes
      have hs : (a.core.tcb t).state = .sus := by
        have := hT.notRun
        revert hr hw h₁ h₂ this
        cases (a.core.tcb t).state <;> decide
      have hT' := h.task t
      have hoth := Others.setTcb t (fun tcb => { tcb with suscnt := tcb.suscnt + 1 }) a
      refine .of_wait (h.settle hoth rfl ?_) hoth rfl ?_ <;> rw [Model.setTcb_tcb_self]
      · exact { notRun := hT.notRun, itskpri := hT.itskpri, tskpri := hT.tskpri
                suscnt := fun _ => by
                  dsimp only
                  rw [hs] at hsus ⊢
                  refine ⟨by omega, by simp; omega⟩
                tskwait := hT.tskwait, ercd := hT.ercd, ready := hT'.ready, waitq := hT'.waitq
                timer := hT'.timer, free := hT'.free }
      · exact fun hw' => absurd hw' hw

/-- **A suspended task is resumed.** -/
theorem Settled.resume (h : Settled a)
    (hs : (a.core.tcb t).state = .sus ∨ (a.core.tcb t).state = .was) :
    Steady a (a.resume t) := by
  have h₁ : (a.core.tcb t).state ≠ .noexs := by rcases hs with hs | hs <;> simp [hs]
  have hT := (h.task t).toTcbInv
  have hi := hT.itskpri h₁
  have hp := hT.tskpri h₁
  have hsus := hT.suscnt h₁
  have hwait := hT.tskwait h₁
  -- a suspended task has a suspension left, so the count cannot go below 0
  have hpos : 0 < (a.core.tcb t).suscnt := hsus.2.mpr hs
  have hnr : (a.core.tcb t).state ≠ .rdy := by rcases hs with hs | hs <;> simp [hs]
  have hoth := Others.setTcb t (fun tcb => { tcb with suscnt := tcb.suscnt - 1 }) a
  have hT' := h.task t
  unfold Model.resume
  simp only [Model.setTcb_tcb_self]
  split
  -- the last suspension ends: the task waits on, or is ready again
  · next hz =>
    split
    · next hw =>
      have htcb : ((a.setTcb t fun tcb => { tcb with suscnt := tcb.suscnt - 1 }).setTcb t
          fun tcb => { tcb with state := .wai }).core.tcb t =
          { a.core.tcb t with suscnt := (a.core.tcb t).suscnt - 1, state := .wai } := by
        rw [Model.setTcb_tcb_self, Model.setTcb_tcb_self]
      have hoth' := hoth.trans (.setTcb t (fun tcb => { tcb with state := .wai }) _)
      have hwt : (a.core.tcb t).state.waiting := by simp [hw, Stat.waiting_iff]
      refine .of_others (.of_wait (h.settle hoth' rfl ?_) hoth' rfl fun _ => ⟨hwt, ?_⟩) hoth'
        fun hr => absurd hr hnr
      · rw [htcb]
        refine { notRun := by simp, itskpri := fun _ => hi, tskpri := fun _ => hp
                 suscnt := fun _ => ?_, tskwait := fun _ => ?_, ercd := fun _ => hT.ercd hwt
                 ready := fun p => ?_, waitq := fun o => ?_, timer := fun hm => ?_, free := ?_ }
        · simp [hz]
        · simpa [hwt, Stat.waiting_iff] using hwait
        · simp [hT'.ready, hnr]
        · simp [hT'.waitq, hwt, Stat.waiting_iff]
        · exact ⟨by simp [Stat.waiting_iff], (hT'.timer hm).2⟩
        · simp [hT'.free, h₁]
      · rw [htcb]
        exact ⟨rfl, rfl, rfl, rfl, rfl⟩
    · next hw =>
      have hsu := hs.resolve_right hw
      have hnone : (a.core.tcb t).tskwait = .none := by
        simpa [hsu, Stat.waiting_iff] using hwait
      have hoth' := hoth.trans (.makeReady t _)
      have hset : Settled ((a.setTcb t fun tcb =>
          { tcb with suscnt := tcb.suscnt - 1 }).makeReady t) := by
        refine ((h.apart_self (.inr hsu)).setTcb _).makeReady ?_ ?_ ?_ ?_ <;>
          rw [Model.setTcb_tcb_self]
        · exact hi
        · exact hp
        · exact hz
        · exact hnone
      refine .of_others (.of_others hset hoth' ?_ fun o => ?_) hoth' fun hr => absurd hr hnr
      · rw [Model.makeReady_tcb]
        simp [Stat.waiting_iff]
      · rw [Model.makeReady_queue_of_ne (by simp)]
        exact .refl _
  · next hz =>
    refine .of_others (.of_wait (h.settle hoth rfl ?_) hoth rfl ?_) hoth
      (fun hr => absurd hr hnr) <;> rw [Model.setTcb_tcb_self]
    · exact { notRun := hT.notRun, itskpri := hT.itskpri, tskpri := hT.tskpri
              suscnt := fun _ => by
                dsimp only
                refine ⟨by omega, by simp only [hs, iff_true]; omega⟩
              tskwait := hT.tskwait, ercd := hT.ercd, ready := hT'.ready, waitq := hT'.waitq
              timer := hT'.timer, free := hT'.free }
    · exact fun hw => ⟨hw, ⟨rfl, rfl, rfl, rfl, rfl⟩⟩

end Ittrium.Spec
