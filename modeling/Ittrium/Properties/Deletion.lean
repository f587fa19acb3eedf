import Ittrium.Properties.Runs
import Ittrium.Spec.Creation
import Ittrium.Spec.Releases

/-!
# Deleting an object

* `readyTasks p s` — the tasks on a ready line, first one first
* `Dissolved o s s'` — what the deletion of `o` does to the tasks
* `delete_releases` — **every waiting task is released once, and the object can be created anew**
-/

namespace Ittrium

open Infra

variable {cfg : Config} {o : ObjId cfg} {t : TskIx cfg} {s s' : Kernel cfg}
  {a a' : Spec.Model cfg} {c : Call cfg} {r : Ret cfg}

/-! ## Ready lines and the timer queue -/

/-- The tasks on a ready line. -/
def readyTasks (p : Int) (s : Kernel cfg) : List (TskIx cfg) :=
  walkTasks (.priq p) s.links cfg.tnumTskid (s.links.next (.priq p))

theorem Models.ring_ready (h : Models s a) {p : Int} (hp : Spec.LinePri cfg p) :
    Ring s.links (.priq p) ((a.queue (.ready p)).map .qnode) :=
  h.refines.ring (l := .ready p) ⟨hp, id⟩

theorem Models.readyTasks_eq (h : Models s a) {p : Int} (hp : Spec.LinePri cfg p) :
    readyTasks p s = a.queue (.ready p) :=
  walkTasks_path (by simp) _ _ _ (Refine.length_le_of_nodup (h.inv.nodup _)) (h.ring_ready hp).forward

/-- The timer queue links the timers of the tasks in it. -/
theorem Models.reaches_timer (h : Models s a) (t : TskIx cfg) :
    s.links.Reaches .timerQueue (.wtmeb t) ↔ t ∈ a.queue .timer := by
  have hring : Ring s.links .timerQueue ((a.queue .timer).map .wtmeb) :=
    h.refines.ring (l := .timer) ⟨trivial, id⟩
  simp [hring.reaches_iff]

/-! ## The call over lists -/

/-- What deleting an existing object does. -/
theorem Spec.exec_deletes (hc : Deletes o c) (hs : (a.core.objcb o).state ≠ .noexs) :
    ∃ a', Spec.exec c a = .ok (a', .er .ok) ∧ a'.core.tcb = (a.releaseAll o).core.tcb ∧
      a'.queue = (a.releaseAll o).queue ∧ (a'.core.objcb o).state = .noexs := by
  cases c with
  | delSem semid =>
    obtain ⟨i, hi, rfl⟩ := of_toOption_map hc
    have hs : (a.core.semcb i).obj.state ≠ .noexs := hs
    simp only [Spec.exec, Spec.delSem, Spec.badSemid_of_ok hi, hi, bind, Except.bind]
    rw [if_neg (by simp), if_neg hs]
    exact ⟨_, rfl, rfl, rfl, by
      simp [Spec.Model.dispatch, Core.objcb, Core.setSemcb]⟩
  | delFlg flgid =>
    obtain ⟨i, hi, rfl⟩ := of_toOption_map hc
    have hs : (a.core.flgcb i).obj.state ≠ .noexs := hs
    simp only [Spec.exec, Spec.delFlg, Spec.badFlgid_of_ok hi, hi, bind, Except.bind]
    rw [if_neg (by simp), if_neg hs]
    exact ⟨_, rfl, rfl, rfl, by
      simp [Spec.Model.dispatch, Spec.Model.setCore, Core.objcb, Core.setFlgcb]⟩
  | delMbx mbxid =>
    obtain ⟨i, hi, rfl⟩ := of_toOption_map hc
    have hs : (a.core.mbxcb i).obj.state ≠ .noexs := hs
    simp only [Spec.exec, Spec.delMbx, Spec.badMbxid_of_ok hi, hi, bind, Except.bind]
    rw [if_neg (by simp), if_neg hs]
    exact ⟨_, rfl, rfl, rfl, by
      simp [Spec.Model.dispatch, Spec.Model.setCore, Core.objcb, Core.setMbxcb, setNextmsg]⟩
  | _ => exact hc.elim

/-- A call that returns over lists returns. -/
theorem Models.returns (h : Models s a) (hc : Spec.Sound a.core c)
    (he : Spec.exec c a = .ok (a', r)) : ∃ s', exec c s = .ok (s', r) ∧ Models s' a' := by
  have hsame := Refine.exec_same h.refines h.inv hc
  rw [he] at hsame
  cases hx : exec c s with
  | error e =>
    rw [hx] at hsame
    cases hsame
  | ok v =>
    obtain ⟨s', r'⟩ := v
    rw [hx] at hsame
    cases hsame with
    | ok hs =>
      obtain ⟨href, hr⟩ := hs
      obtain rfl : r' = r := hr
      exact ⟨s', rfl, href, Spec.exec_inv h.inv hc he⟩

/-! ## The deletion -/

/-- What the deletion of `o` does to the tasks. -/
structure Dissolved (o : ObjId cfg) (s s' : Kernel cfg) : Prop where
  gone : (s'.core.objcb o).state = .noexs
  /-- No task is linked in the wait queue. -/
  nobody : ∀ t, ¬ s'.links.Reaches (.waitq o) (.qnode t)
  /-- The timers of the former waiters are off the timer queue. -/
  timer : ∀ t ∈ waiters o s, ¬ s'.links.Reaches .timerQueue (.wtmeb t)
  /-- Such a task has result `E_DLT`, and is ready, or suspended if it was suspended as well. -/
  former : ∀ t ∈ waiters o s, s'.core.tcb t =
    { s.core.tcb t with
      ercd := .dlt
      tskwait := .none
      state := if (s.core.tcb t).state = .wai then .rdy else .sus }
  others : ∀ t, t ∉ waiters o s → s'.core.tcb t = s.core.tcb t
  /-- The ready lines gain those that are not suspended, in the order they waited in. -/
  ready : ∀ p, Spec.LinePri cfg p → readyTasks p s' = readyTasks p s ++
    (waiters o s).filter fun t => decide ((s.core.tcb t).state = .wai ∧ (s.core.tcb t).tskpri = p)

/-- The object has been created by `c` and is as new. -/
structure Anew (o : ObjId cfg) (c : Call cfg) (s : Kernel cfg) : Prop where
  data : Spec.Call.asNew c o s.core
  nobody : waiters o s = []

theorem Models.dissolves (h : Models s a) (hc : Deletes o c) (ho : (s.core.objcb o).state ≠ .noexs) :
    ∃ s' a', exec c s = .ok (s', .er .ok) ∧ Models s' a' ∧ Dissolved o s s' := by
  have hst := h.inv.toSettled
  have hw := h.waiters_eq o ho
  rw [h.refines.core] at ho
  obtain ⟨a', he, htcb, hq, hgone⟩ := Spec.exec_deletes hc ho
  have hsound : Spec.Sound a.core c := by
    cases c <;> trivial
  obtain ⟨s', hx, h'⟩ := h.returns hsound he
  have hgone' : (s'.core.objcb o).state = .noexs := by rw [h'.refines.core]; exact hgone
  refine ⟨s', a', hx, h', hgone', h'.waitq_noexs hgone', ?_, ?_, ?_, ?_⟩
  · intro t ht
    rw [h'.reaches_timer, hq, hst.releaseAll_timer]
    rw [hw] at ht
    simp [ht]
  · intro t ht
    rw [hw] at ht
    rw [h'.refines.core, htcb, hst.releaseAll_tcb_of_mem ht, h.refines.core]
    rfl
  · intro t ht
    rw [hw] at ht
    rw [h'.refines.core, htcb, hst.releaseAll_tcb_of_not_mem ht, h.refines.core]
  · intro p hp
    rw [h'.readyTasks_eq hp, h.readyTasks_eq hp, hw, hq, hst.releaseAll_ready, h.refines.core]

/-- An object that does not exist can be created. -/
theorem Models.creates (h : Models s a) (ho : (s.core.objcb o).state = .noexs)
    (hc : Spec.Call.Creates s.core c o r) (hpk : Spec.Call.accepts c) :
    ∃ s', exec c s = .ok (s', r) ∧ Anew o c s' := by
  rw [h.refines.core] at ho hc
  obtain ⟨a', he, hnew, hq⟩ := Spec.exec_creates hc hpk ho
  have hsound : Spec.Sound a.core c := by cases hc <;> trivial
  obtain ⟨s', hx, h'⟩ := h.returns hsound he
  have hex : (s'.core.objcb o).state ≠ .noexs := by
    rw [h'.refines.core]
    cases hc <;> simp only [Spec.Call.asNew] at hnew <;> simp [Core.objcb, hnew]
  refine ⟨s', hx, by rw [h'.refines.core]; exact hnew, ?_⟩
  rw [h'.waiters_eq o hex, hq, h.inv.toSettled.waitq_eq_nil ho]

/-- **Deleting an object releases every waiting task exactly once.** In every state with its queues
in order `del_*` succeeds on an existing object. No task is left in its queue or waits for it as
long as it does not exist; the ready lines gain the former waiters that are not suspended; no other
task changes; and `cre_*` or `acre_*` can create the object anew. -/
theorem delete_releases (h : ∃ a, Models s a) (hc : Deletes o c)
    (ho : (s.core.objcb o).state ≠ .noexs) :
    ∃ s', exec c s = .ok (s', .er .ok) ∧ Dissolved o s s' ∧ (∃ a', Models s' a') ∧
      (∀ tr s'', Run (· = s') (StepOf SoundCall) tr s'' → (s''.core.objcb o).state = .noexs →
        ∀ t, waitsFor o s''.core t = false ∧ ¬ s''.links.Reaches (.waitq o) (.qnode t)) ∧
      ∀ c' r, Spec.Call.Creates s'.core c' o r → Spec.Call.accepts c' →
        ∃ s'', exec c' s' = .ok (s'', r) ∧ Anew o c' s'' := by
  obtain ⟨a, h⟩ := h
  obtain ⟨s', a', hx, h', hd⟩ := h.dissolves hc ho
  refine ⟨s', hx, hd, ⟨a', h'⟩, ?_, fun c' r hc' hpk => h'.creates hd.gone hc' hpk⟩
  intro tr s'' hrun hgone t
  obtain ⟨a'', h'', -⟩ := lift_run (P := fun _ _ => True) (fun _ _ h => h)
    (by rintro _ rfl; exact ⟨a', h', trivial⟩) (fun _ _ _ _ _ _ _ _ h => h) hrun
  refine ⟨?_, h''.waitq_noexs hgone t⟩
  rw [Bool.eq_false_iff]
  intro hw
  rw [h''.refines.core] at hw hgone
  have hmem := (h''.inv.toSettled.mem_waitq o t).mpr hw
  rw [h''.inv.toSettled.waitq_eq_nil hgone] at hmem
  cases hmem

/-- A semaphore with two waiting tasks, one with a timeout and one suspended, is deleted. -/
theorem delete_releases_two : ∃ s s' : Kernel smallConfig,
    waiters (.sem 0) s = [1, 0] ∧ (s.core.tcb 0).state = .was ∧
    exec (.delSem 1) s = .ok (s', .er .ok) ∧ Dissolved (.sem 0) s s' := by
  obtain ⟨tr, s, h, hw, hs, ho⟩ := exists_runOf (C := SoundCall)
    (Q := fun _ s => waiters (.sem 0) s = [1, 0] ∧ (s.core.tcb 0).state = .was ∧
      (s.core.objcb (.sem 0)).state ≠ .noexs)
    ([.creSem 1 ⟨0, 0, 1⟩] ++ startTasks [2, 1] ++ [.dispatch, .waiSem 1, .twaiSem 1 5, .susTsk 1])
    zeroed (by decide +kernel)
  obtain ⟨s', hx, hd, -⟩ := delete_releases (RunOf.models (fun _ _ h => h) h)
    (show Deletes (.sem 0) (.delSem 1) from rfl) ho
  exact ⟨s, s', hw, hs, hx, hd⟩

end Ittrium
