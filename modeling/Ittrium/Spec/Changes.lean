import Ittrium.Spec.Invariant

/-!
# The state changes of a task

Each keeps the lines in order: the task leaves its lines (`Settled.apart_*`), its data changes
(`Apart.setTcb`), and it gets to the lines of its new state (`Apart.*`).
-/

namespace Ittrium.Spec

open Infra

variable {cfg : Config} {a a' : Model cfg} {l : Line cfg} {t u : TskIx cfg} {o : ObjId cfg}
  {e : ER} {tmout : TMO}

/-! ## Lines that are not touched -/

namespace Model

theorem enq_of_ne {l' : Line cfg} (h : l' ≠ l) : (a.enq l t).queue l' = a.queue l' :=
  Function.update_of_ne h ..

theorem enqPri_of_ne {l' : Line cfg} (h : l' ≠ l) : (a.enqPri l t).queue l' = a.queue l' :=
  Function.update_of_ne h ..

theorem deq_self : (a.deq l t).queue l = (a.queue l).erase t := Function.update_self ..

theorem deq_of_ne {l' : Line cfg} (h : l' ≠ l) : (a.deq l t).queue l' = a.queue l' :=
  Function.update_of_ne h ..

theorem makeReady_queue_of_ne (h : ∀ p, l ≠ .ready p) : (a.makeReady t).queue l = a.queue l :=
  enq_of_ne (h _)

theorem makeUnready_queue_of_ne (h : ∀ p, l ≠ .ready p) :
    (a.makeUnready t).queue l = a.queue l :=
  deq_of_ne (h _)

theorem leaveWait_queue_of_ne (h : ∀ p, l ≠ .ready p) : (a.leaveWait t).queue l = a.queue l := by
  unfold leaveWait
  dsimp only
  split
  · exact makeReady_queue_of_ne h
  · rfl

theorem sublist_cancel (l : Line cfg) : ((a.cancel t).queue l).Sublist (a.queue l) := by
  unfold cancel
  rcases deqObj_cases t (a.deq .timer t) with ⟨-, h⟩ | ⟨o, -, h⟩ <;> rw [h]
  · exact sublist_deq l
  · exact (sublist_deq l).trans (sublist_deq l)

theorem startTimer_queue_of_ne (h : l ≠ .timer) :
    (a.startTimer t tmout).queue l = a.queue l := by
  unfold startTimer
  dsimp only
  split
  · rfl
  · exact enq_of_ne h

theorem startTimer_timer :
    (a.startTimer t tmout).queue .timer =
      if tmout = tmoFevr then a.queue .timer else a.queue .timer ++ [t] := by
  unfold startTimer
  dsimp only
  split
  · rfl
  · simp only [enq, Function.update_self]; rfl

/-- Starting the timer sets the timer's own data. -/
theorem startTimer_tcb (t : TskIx cfg) (tmout : TMO) (a : Model cfg) :
    ∃ m : TMEB cfg, m.callback = some .waitReleaseTmout ∧ m.arg = .qnode t ∧
      (a.startTimer t tmout).core.tcb t = { a.core.tcb t with wtmeb := m } := by
  unfold startTimer
  dsimp only
  split
  · exact ⟨_, rfl, rfl, by rw [setTcb_tcb_self]⟩
  · refine ⟨{ count := tmout.signExtend 32, callback := some .waitReleaseTmout, arg := .qnode t },
      rfl, rfl, ?_⟩
    rw [enq_core, setTcb_tcb_self, setTcb_tcb_self]

/-- Changes of a task's data that keep its `wait_obj` do not matter to `cancel`. -/
theorem cancel_setTcb {f : TCB cfg → TCB cfg}
    (hf : (f (a.core.tcb t)).waitObj = (a.core.tcb t).waitObj) :
    (a.setTcb t f).cancel t = (a.cancel t).setTcb t f := by
  have hw : (((a.setTcb t f).deq .timer t).core.tcb t).waitObj = (a.core.tcb t).waitObj :=
    (congrArg TCB.waitObj setTcb_tcb_self).trans hf
  unfold cancel deqObj
  rw [hw, show ((a.deq .timer t).core.tcb t).waitObj = (a.core.tcb t).waitObj from rfl]
  cases (a.core.tcb t).waitObj <;> rfl

end Model

/-! ## Leaving lines -/

theorem Settled.apart_makeUnready (h : Settled a) (ht : (a.core.tcb t).state = .rdy) :
    Apart t (a.makeUnready t) := by
  refine h.apart (.makeUnready h.nodup) (Model.nodup_deq h.nodup) fun l hl => ?_
  obtain ⟨hm, hne⟩ := (Model.mem_deq (h.nodup _)).mp hl
  rcases (h.task t).cases_of_on hm with ⟨-, rfl⟩ | ⟨hw, -⟩ | ⟨hw, -⟩ | ⟨hw, -⟩
  · exact hne ⟨rfl, rfl⟩
  all_goals simp [ht, Stat.waiting_iff] at hw

theorem Settled.apart_cancel (h : Settled a) (ht : (a.core.tcb t).state.waiting) :
    Apart t (a.cancel t) := by
  have hnd : ∀ l, ((a.cancel t).queue l).Nodup :=
    fun l => (h.nodup l).sublist (Model.sublist_cancel l)
  refine h.apart (.cancel h.nodup) hnd fun l hl => ?_
  rcases (h.task t).cases_of_on ((Model.sublist_cancel l).subset hl) with
    ⟨hw, -⟩ | ⟨-, o, ho, rfl⟩ | ⟨-, rfl⟩ | ⟨hw, -⟩
  · simp [hw, Stat.waiting_iff] at ht
  · unfold Model.cancel Model.deqObj at hl
    rw [show ((a.deq .timer t).core.tcb t).waitObj = some o from ho] at hl
    exact ((Model.mem_deq (Model.nodup_deq h.nodup _)).mp hl).2 ⟨rfl, rfl⟩
  · have hm : t ∈ (a.deq .timer t).queue .timer := by
      unfold Model.cancel at hl
      rcases Model.deqObj_cases t (a.deq .timer t) with ⟨-, he⟩ | ⟨o, -, he⟩ <;> rw [he] at hl
      · exact hl
      · exact (Model.sublist_deq _).subset hl
    exact ((Model.mem_deq (h.nodup _)).mp hm).2 ⟨rfl, rfl⟩
  · simp [hw, Stat.waiting_iff] at ht

theorem Settled.apart_deqFree (h : Settled a) (ht : (a.core.tcb t).state = .noexs) :
    Apart t (a.deq .free t) := by
  refine h.apart (.deq (h.nodup _)) (Model.nodup_deq h.nodup) fun l hl => ?_
  obtain ⟨hm, hne⟩ := (Model.mem_deq (h.nodup _)).mp hl
  rcases (h.task t).cases_of_on hm with ⟨hw, -⟩ | ⟨hw, -⟩ | ⟨hw, -⟩ | ⟨-, rfl⟩
  any_goals simp [ht, Stat.waiting_iff] at hw
  exact hne ⟨rfl, rfl⟩

theorem Settled.apart_self (h : Settled a)
    (ht : (a.core.tcb t).state = .dmt ∨ (a.core.tcb t).state = .sus) : Apart t a :=
  h.apart (.refl t a) h.nodup ((h.task t).nowhere ht)

/-! ## Joining lines -/

theorem Apart.rest (h : Apart t a) (hT : TcbInv (a.core.tcb t))
    (hs : (a.core.tcb t).state = .dmt ∨ (a.core.tcb t).state = .sus) : Settled a :=
  h.settle (.refl t a) h.nodup (fun _ ho => absurd ho (h.nowhere _)) (.of_nowhere hT hs h.nowhere)

/-- `t` joins the one line `l`. -/
theorem Apart.enq (h : Apart t a) (l : Line cfg) (hw : ∀ o, l ≠ .waitq o)
    (ht : ∀ on : Line cfg → Prop, (∀ l', on l' ↔ l' = l) → TaskInv t (a.core.tcb t) on) :
    Settled (a.enq l t) := by
  refine h.settle (.enq l t a) (Model.nodup_enq h.nodup (h.nowhere l)) (fun o hm => ?_) ?_
  · rcases Model.mem_enq.mp hm with hm | ⟨rfl, -⟩
    · exact absurd hm (h.nowhere _)
    · exact absurd rfl (hw o)
  · refine ht _ fun l' => ?_
    rw [Model.mem_enq]
    simp [h.nowhere l']

theorem Apart.enqFree (h : Apart t a) (hs : (a.core.tcb t).state = .noexs) :
    Settled (a.enq .free t) :=
  h.enq .free (by simp) fun _ hon => .of_free hs hon

theorem Apart.makeReady (h : Apart t a) (hi : LinePri cfg (a.core.tcb t).itskpri)
    (hp : LinePri cfg (a.core.tcb t).tskpri) (hs : (a.core.tcb t).suscnt = 0)
    (hw : (a.core.tcb t).tskwait = .none) : Settled (a.makeReady t) := by
  refine (h.setTcb _).enq _ (by simp) fun on hon => ?_
  rw [Model.setTcb_tcb_self]
  refine .of_ready ?_ rfl hon
  exact { notRun := by simp, itskpri := fun _ => hi, tskpri := fun _ => hp
          suscnt := fun _ => by simp [hs], tskwait := fun _ => by simp [hw, Stat.waiting_iff]
          ercd := by simp [Stat.waiting_iff] }

/-- The wait of a task that has left its lines is over. -/
theorem Apart.leaveWait (h : Apart t a) (hi : LinePri cfg (a.core.tcb t).itskpri)
    (hp : LinePri cfg (a.core.tcb t).tskpri)
    (hsus : 0 ≤ (a.core.tcb t).suscnt ∧ (0 < (a.core.tcb t).suscnt ↔
      (a.core.tcb t).state = .sus ∨ (a.core.tcb t).state = .was))
    (hw : (a.core.tcb t).state.waiting) : Settled (a.leaveWait t) := by
  unfold Model.leaveWait
  simp only [Model.setTcb_tcb_self]
  split
  · next hs =>
    refine (h.setTcb _).makeReady ?_ ?_ ?_ ?_ <;> rw [Model.setTcb_tcb_self]
    · exact hi
    · exact hp
    · simp only [hs, reduceCtorEq, or_self, iff_false] at hsus
      dsimp only
      omega
  · next hs =>
    have hwas : (a.core.tcb t).state = .was := (Stat.waiting_iff.mp hw).resolve_left hs
    refine ((h.setTcb _).setTcb _).rest ?_ ?_ <;>
      rw [Model.setTcb_tcb_self, Model.setTcb_tcb_self]
    · refine { notRun := by simp, itskpri := fun _ => hi, tskpri := fun _ => hp
               suscnt := fun _ => ?_, tskwait := fun _ => by simp [Stat.waiting_iff]
               ercd := by simp [Stat.waiting_iff] }
      simpa [hwas] using hsus
    · exact Or.inr rfl

/-! ## Waits that end -/

namespace Model

theorem cancel_core (t : TskIx cfg) (a : Model cfg) : (a.cancel t).core = a.core := by
  unfold cancel
  rcases deqObj_cases t (a.deq .timer t) with ⟨-, h⟩ | ⟨o, -, h⟩ <;> rw [h] <;> rfl

theorem makeReady_tcb (t : TskIx cfg) (a : Model cfg) :
    (a.makeReady t).core.tcb t = { a.core.tcb t with state := .rdy } := by
  rw [makeReady, enq_core, setTcb_tcb_self]

theorem leaveWait_tcb (t : TskIx cfg) (a : Model cfg) :
    (a.leaveWait t).core.tcb t =
      { a.core.tcb t with
        tskwait := .none
        state := if (a.core.tcb t).state = .wai then .rdy else .sus } := by
  unfold leaveWait
  simp only [setTcb_tcb_self]
  split
  · rw [makeReady_tcb, setTcb_tcb_self]
  · rw [setTcb_tcb_self, setTcb_tcb_self]

theorem endWait_tcb (t : TskIx cfg) (a : Model cfg) :
    (a.endWait t).core.tcb t =
      { a.core.tcb t with
        tskwait := .none
        state := if (a.core.tcb t).state = .wai then .rdy else .sus } := by
  rw [endWait, leaveWait_tcb, cancel_core]

theorem release_tcb (t : TskIx cfg) (e : ER) (a : Model cfg) :
    (a.release t e).core.tcb t =
      { a.core.tcb t with
        ercd := e
        tskwait := .none
        state := if (a.core.tcb t).state = .wai then .rdy else .sus } := by
  rw [release, endWait_tcb, setTcb_tcb_self]

theorem release_eq (t : TskIx cfg) (e : ER) (a : Model cfg) :
    a.release t e = ((a.cancel t).setTcb t fun tcb => { tcb with ercd := e }).leaveWait t := by
  rw [release, endWait, cancel_setTcb rfl]

/-- The wait of `t` ends with the result it already has. -/
theorem endWait_eq (t : TskIx cfg) (a : Model cfg) :
    a.endWait t = a.release t (a.core.tcb t).ercd := by
  have h : (a.setTcb t fun tcb => { tcb with ercd := (a.core.tcb t).ercd }) = a := by
    simp only [setTcb, setCore, Core.setTcb, Function.update_eq_self]
  rw [release, h]

theorem sublist_endWait (t : TskIx cfg) (a : Model cfg) (o : ObjId cfg) :
    ((a.endWait t).queue (.waitq o)).Sublist (a.queue (.waitq o)) := by
  rw [endWait, leaveWait_queue_of_ne (by simp)]
  exact sublist_cancel _

end Model

/-- **The wait of a task ends with result `e`.** -/
theorem Settled.release (h : Settled a) (e : ER) (hw : (a.core.tcb t).state.waiting) :
    Steady a (a.release t e) := by
  have hne : (a.core.tcb t).state ≠ .noexs := by
    rintro hs
    simp [hs, Stat.waiting_iff] at hw
  have hT := (h.task t).toTcbInv
  have hs : Settled (a.release t e) := by
    rw [Model.release_eq]
    refine ((h.apart_cancel hw).setTcb _).leaveWait ?_ ?_ ?_ ?_ <;>
      rw [Model.setTcb_tcb_self, Model.cancel_core]
    · exact hT.itskpri hne
    · exact hT.tskpri hne
    · exact hT.suscnt hne
    · exact hw
  refine .of_others (.of_others hs (.release e h.nodup) ?_ fun o => ?_) (.release e h.nodup) ?_
  · rw [Model.release_tcb]
    dsimp only
    split <;> simp [Stat.waiting_iff]
  · exact Model.sublist_endWait t _ o
  · intro hr
    simp [hr, Stat.waiting_iff] at hw

theorem Settled.endWait (h : Settled a) (hw : (a.core.tcb t).state.waiting) :
    Steady a (a.endWait t) := by
  rw [Model.endWait_eq]
  exact h.release _ hw

/-! ## Creation and deletion, activation and exit -/

theorem TcbInv.of_dormant {tcb : TCB cfg} (hi : LinePri cfg tcb.itskpri) :
    TcbInv { tcb with
      state := .dmt
      tskpri := tcb.itskpri
      wupcnt := 0
      suscnt := 0
      tskwait := .none } where
  notRun := by simp
  itskpri := fun _ => hi
  tskpri := fun _ => hi
  suscnt := fun _ => by simp
  tskwait := fun _ => by simp [Stat.waiting_iff]
  ercd := by simp [Stat.waiting_iff]

/-- A task that has left its lines becomes dormant. -/
theorem Apart.taskMakeDormant (h : Apart t a) (hi : LinePri cfg (a.core.tcb t).itskpri) :
    Settled (a.setCore (taskMakeDormant t)) := by
  have htcb := taskMakeDormant_tcb_self t a.core
  refine (h.setCore (fun u hu => taskMakeDormant_tcb_of_ne hu _) (.taskMakeDormant t _)).rest
    ?_ ?_ <;> rw [show (a.setCore (Ittrium.taskMakeDormant t)).core.tcb t = _ from htcb]
  · exact .of_dormant hi
  · exact Or.inl rfl

theorem Others.taskMakeDormant (t : TskIx cfg) (a : Model cfg) :
    Others t a (a.setCore (taskMakeDormant t)) :=
  .setCore (fun _ hu => taskMakeDormant_tcb_of_ne hu _) (.taskMakeDormant t _)

theorem Others.makeTaskContext (t : TskIx cfg) (a : Model cfg) :
    Others t a (a.setCore (makeTaskContext t)) :=
  .setCore (fun _ hu => makeTaskContext_tcb_of_ne hu _) (.makeTaskContext t _)

theorem Others.create (pk : TCtsk) (h : Settled a) : Others t a (a.create t pk) :=
  ((Others.deq (h.nodup _)).trans (.setTcb t _ _)).trans (.taskMakeDormant t _)

theorem Settled.create (h : Settled a) {pk : TCtsk} (ht : (a.core.tcb t).state = .noexs)
    (hpk : LinePri cfg (priToIndex pk.itskpri)) : Steady a (a.create t pk) := by
  have hs : Settled (a.create t pk) := by
    refine ((h.apart_deqFree ht).setTcb _).taskMakeDormant ?_
    rw [Model.setTcb_tcb_self]
    exact hpk
  refine .of_others (.of_others hs (.create pk h) ?_ fun o => ?_) (.create pk h) ?_
  · rw [show (a.create t pk).core.tcb t = _ from taskMakeDormant_tcb_self t _]
    simp [Stat.waiting_iff]
  · show ((a.deq .free t).queue (.waitq o)).Sublist _
    exact Model.sublist_deq _
  · simp [ht]

/-- The lines of a task that is deleted. -/
theorem Settled.apart_delete (h : Settled a) (ht : (a.core.tcb t).state ≠ .noexs) :
    Apart t (if (a.core.tcb t).state.waiting then a.cancel t
      else if (a.core.tcb t).state = .rdy then a.makeUnready t else a) := by
  split
  · next hw => exact h.apart_cancel hw
  · next hw =>
    split
    · next hr => exact h.apart_makeUnready hr
    · next hr =>
      refine h.apart_self ?_
      have := (h.task t).notRun
      revert hw hr ht this
      cases (a.core.tcb t).state <;> decide

theorem Others.delete (h : Settled a) : Others t a (a.delete t) := by
  unfold Model.delete
  dsimp only
  refine .trans (.trans ?_ (.setTcb t _ _)) (.enq _ t _)
  split
  · exact .cancel h.nodup
  · split
    · exact .makeUnready h.nodup
    · exact .refl t a

theorem Model.delete_tcb (t : TskIx cfg) (a : Model cfg) :
    ((a.delete t).core.tcb t).state = .noexs := by
  unfold delete
  dsimp only
  rw [enq_core, setTcb_tcb_self]

theorem Settled.delete (h : Settled a) (ht : (a.core.tcb t).state ≠ .noexs) :
    Calm a (a.delete t) := by
  have hs : Settled (a.delete t) := by
    refine ((h.apart_delete ht).setTcb _).enqFree ?_
    rw [Model.setTcb_tcb_self]
  refine .of_others hs (.delete h) ?_ fun o => ?_
  · simp [Model.delete_tcb, Stat.waiting_iff]
  · unfold Model.delete
    rw [Model.enq_of_ne (by simp)]
    show (Model.queue (ite _ _ _) _).Sublist _
    split
    · exact Model.sublist_cancel _
    · split
      · rw [Model.makeUnready_queue_of_ne (by simp)]
      · exact .refl _

theorem Others.activate (t : TskIx cfg) (a : Model cfg) : Others t a (a.activate t) :=
  (Others.makeTaskContext t a).trans (.makeReady t _)

theorem Settled.activate (h : Settled a) (ht : (a.core.tcb t).state = .dmt) :
    Steady a (a.activate t) := by
  have hT := (h.task t).toTcbInv
  have hsus := hT.suscnt (by simp [ht])
  have hwait := hT.tskwait (by simp [ht])
  obtain ⟨ctx, hctx⟩ := makeTaskContext_tcb_self t a.core
  have hs : Settled (a.activate t) := by
    refine ((h.apart_self (.inl ht)).setCore (fun u hu => makeTaskContext_tcb_of_ne hu _)
      (.makeTaskContext t _)).makeReady ?_ ?_ ?_ ?_ <;>
      rw [show (a.setCore (makeTaskContext t)).core.tcb t = _ from hctx]
    · exact hT.itskpri (by simp [ht])
    · exact hT.tskpri (by simp [ht])
    · simp only [ht, reduceCtorEq, or_self, iff_false] at hsus
      dsimp only
      omega
    · simpa [ht, Stat.waiting_iff] using hwait
  refine .of_others (.of_others hs (.activate t a) ?_ fun o => ?_) (.activate t a) ?_
  · rw [Model.activate, Model.makeReady_tcb]
    simp [Stat.waiting_iff]
  · rw [Model.activate, Model.makeReady_queue_of_ne (by simp)]
    exact .refl _
  · simp [ht]

theorem Model.changePri_tcb_self {p : Int} :
    (a.changePri t p).core.tcb t = { a.core.tcb t with tskpri := p } := by
  rw [Model.changePri, Model.enq_core, Model.setTcb_tcb_self]
  rfl

theorem Model.changePri_waitq {p : Int} :
    (a.changePri t p).queue (.waitq o) = a.queue (.waitq o) := by
  rw [Model.changePri, Model.enq_of_ne (by simp)]
  show (a.makeUnready t).queue (.waitq o) = _
  exact Model.makeUnready_queue_of_ne (by simp)

theorem Others.changePri (p : Int) (h : Settled a) : Others t a (a.changePri t p) :=
  ((Others.makeUnready h.nodup).trans (.setTcb t _ _)).trans (.enq _ t _)

theorem Settled.changePri {p : Int} (h : Settled a) (ht : (a.core.tcb t).state = .rdy)
    (hp : LinePri cfg p) : Steady a (a.changePri t p) := by
  have hT := (h.task t).toTcbInv
  have hs : Settled (a.changePri t p) := by
    refine ((h.apart_makeUnready ht).setTcb _).enq _ (by simp) fun on hon => ?_
    rw [Model.setTcb_tcb_self]
    refine .of_ready ?_ ht hon
    exact { notRun := hT.notRun, itskpri := hT.itskpri, tskpri := fun _ => hp
            suscnt := hT.suscnt, tskwait := hT.tskwait, ercd := hT.ercd }
  refine .of_others (.of_others hs (.changePri p h) ?_ fun o => ?_) (.changePri p h) fun _ => ?_
  · rw [Model.changePri_tcb_self]
    simp [ht, Stat.waiting_iff]
  · rw [Model.changePri_waitq]
  · rw [Model.changePri_tcb_self]
    exact ht

theorem Settled.exit (h : Settled a) (ht : (a.core.tcb t).state = .rdy) : Calm a (a.exit t) := by
  have hd : Calm a ((a.makeUnready t).setCore (taskMakeDormant t)) := by
    have htcb : ((a.makeUnready t).setCore (taskMakeDormant t)).core.tcb t = _ :=
      taskMakeDormant_tcb_self t _
    refine .of_others ((h.apart_makeUnready ht).taskMakeDormant ?_)
      ((Others.makeUnready h.nodup).trans (.taskMakeDormant t _)) ?_ fun o => ?_
    · exact (h.task t).itskpri (by simp [ht])
    · rw [htcb]
      simp [Stat.waiting_iff]
    · show ((a.makeUnready t).queue (.waitq o)).Sublist _
      rw [Model.makeUnready_queue_of_ne (by simp)]
  unfold Model.exit
  dsimp only
  split
  · have hs := hd.settled.setTcb (t := t) (f := fun tcb => { tcb with actcnt := tcb.actcnt - 1 })
      ⟨rfl, rfl, rfl, rfl, rfl, rfl, rfl, rfl, fun _ => ⟨rfl, rfl⟩⟩
    refine hd.trans (hs.toCalm.trans (hs.settled.activate ?_).toCalm)
    rw [Model.setTcb_tcb_self]
    exact congrArg TCB.state (taskMakeDormant_tcb_self t _)
  · exact hd

end Ittrium.Spec
