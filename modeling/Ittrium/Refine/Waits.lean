import Ittrium.Refine.Changes
import Mathlib.Data.Fintype.Card

/-!
# Starting a wait on rings

* `Refines.makeWait` — `make_wait`: the timer queue, or the task's `wtmeb` linked to itself
* `kqueueFindPri_eq` — the search of a place by priority ends, at the place of a stable insertion
* `Refines.objMakeWait` — **`obj_make_wait`**
-/

namespace Ittrium.Refine

open Infra Spec

variable {cfg : Config} {s : Kernel cfg} {a : Model cfg} {t u : TskIx cfg} {o : ObjId cfg}
  {tmout : TMO}

/-! ## The timer -/

/-- The timer of a waiting task is set. -/
theorem Loose.timerInsert (h : Loose t s a) :
    LooseQ t (timerInsert t tmout (some .waitReleaseTmout) (.qnode t) s)
      (a.startTimer t tmout) := by
  have h₁ := h.setTcb fun tcb =>
    { tcb with wtmeb := { tcb.wtmeb with callback := some .waitReleaseTmout, arg := .qnode t } }
  have hno : t ∉ a.queue .timer := fun hm =>
    h.off (.wtmeb t) (.inr rfl) .timerQueue (by simpa [elems] using hm)
  unfold Ittrium.timerInsert Model.startTimer
  dsimp only
  split
  · exact h₁.selfLink (.inr rfl) rfl (fun y hy => hy) fun y hy => .inl hy
  · have h₂ := h₁.setTcb fun tcb =>
      { tcb with wtmeb := { tcb.wtmeb with count := tmout.signExtend 32 } }
    refine h₂.enq (l := .timer) (by simp) ⟨trivial, by simp [lineHead]⟩ (.inr rfl)
      (fun y hy => hy) ?_ ?_
    · exact fun hh => hh.2 (Model.mem_enq.mpr (.inr ⟨rfl, rfl⟩))
    · rintro x rfl
      exact notMem_elems_update (h₂.off _ (.inl rfl)) (by simp [lineNode])

/-- **`make_wait` of a ready task.** -/
theorem Refines.makeWait (h : Refines s a) (hs : (a.core.tcb t).state = .rdy)
    (hm : t ∈ a.queue (.ready (a.core.tcb t).tskpri))
    (hno : ∀ l, t ∉ (a.makeUnready t).queue l) :
    LooseQ t (makeWait t tmout s) (a.startWait t tmout) := by
  have h₁ := (h.taskMakeUnready hm hno).setTcb fun tcb => { tcb with state := .wai }
  unfold Ittrium.makeWait Model.startWait
  rw [h.core, hs]
  exact h₁.timerInsert

/-- The same after data of the task has been set. -/
theorem Refines.makeWait_setTcb (tmout : TMO) {f : TCB cfg → TCB cfg} (h : Refines s a) (hi : Settled a)
    (hs : (a.core.tcb t).state = .rdy) (hfs : (f (a.core.tcb t)).state = .rdy)
    (hfp : (f (a.core.tcb t)).tskpri = (a.core.tcb t).tskpri) :
    LooseQ t (Ittrium.makeWait t tmout (s.setTcb t f)) ((a.setTcb t f).startWait t tmout) := by
  have hr : Refines (s.setTcb t f) (a.setTcb t f) := by
    refine h.setCore (fun u _ => ?_) fun u _ => ?_
    all_goals
      by_cases hu : u = t
      · subst hu; simp [Core.setTcb, hfs, Stat.waiting_iff]
      · simp [Core.setTcb_of_ne hu]
  refine hr.makeWait (by rw [Model.setTcb_tcb_self, hfs]) ?_ ?_
  · rw [Model.setTcb_tcb_self, hfp]
    exact ((hi.task t).ready _).mpr ⟨hs, rfl⟩
  · rw [Model.makeUnready_setTcb hfp]
    exact (hi.apart_makeUnready hs).nowhere

/-! ## The place in a line by priority -/

/-- The search from some place of the line on. -/
theorem kqueueFindPriLoop_eq (prio : Int) {queue : Node cfg} (hq : ∀ t, queue ≠ .qnode t)
    {ts : List (TskIx cfg)} (hr : Ring s.links queue (ts.map .qnode)) :
    ∀ (ts₂ ts₁ : List (TskIx cfg)) (n : Nat), ts = ts₁ ++ ts₂ → ts₂.length < n →
      kqueueFindPriLoop queue prio s n ((ts₂.map .qnode).head?.getD queue) =
        .ok (((ts₂.dropWhile fun u => (s.core.tcb u).tskpri ≤ prio).map .qnode).head?.getD queue)
  | [], _, n + 1, _, _ => by simp [kqueueFindPriLoop]
  | u :: ts₂, ts₁, n + 1, he, hn => by
    have hnext : s.links.next (.qnode u) = (ts₂.map .qnode).head?.getD queue := by
      rw [he, List.map_append, List.map_cons] at hr
      exact hr.next_mid
    have ih := kqueueFindPriLoop_eq prio hq hr ts₂ (ts₁ ++ [u]) n (by simpa using he)
      (by simpa using hn)
    rw [List.map_cons, List.head?_cons, Option.getD_some, kqueueFindPriLoop,
      if_neg (hq u).symm, hnext]
    show (if (s.core.tcb u).tskpri > prio then _ else _) = _
    by_cases hp : (s.core.tcb u).tskpri ≤ prio
    · rw [if_neg (by omega), ih, List.dropWhile_cons_of_pos (by simpa using hp)]
    · rw [if_pos (by omega), List.dropWhile_cons_of_neg (by simpa using hp)]
      rfl

theorem length_le_of_nodup {ts : List (TskIx cfg)} (h : ts.Nodup) : ts.length ≤ cfg.tnumTskid := by
  simpa using h.length_le_card

/-- **The search ends, at the first task of less urgent priority.** -/
theorem kqueueFindPri_eq (prio : Int) {queue : Node cfg} (hq : ∀ t, queue ≠ .qnode t)
    {ts : List (TskIx cfg)} (hnd : ts.Nodup) (hr : Ring s.links queue (ts.map .qnode)) :
    kqueueFindPri queue prio s =
      .ok (((ts.dropWhile fun u => (s.core.tcb u).tskpri ≤ prio).map .qnode).head?.getD queue) := by
  unfold kqueueFindPri
  rw [hr.next_head]
  exact kqueueFindPriLoop_eq prio hq hr ts [] _ rfl (by have := length_le_of_nodup hnd; omega)

/-! ## Waiting for an object -/

/-- The waiting task joins the line of its object at the end. -/
theorem LooseQ.enq (h : LooseQ t s a) (ho : (a.core.tcb t).waitObj = some o)
    (hh : heads a (.waitq o)) :
    Refines (s.setLinks (kqueueInsert (.qnode t) (.waitq o))) (a.enq (.waitq o) t) :=
  RefinesOff.enq (l := .waitq o) h (by simp) ⟨hh, by simp [lineHead]⟩ rfl (fun _ hx => .inr hx)
    (fun hh => by simp [lineNode, heads, ho] at hh) fun _ hf => hf.elim

/-- By its priority. -/
theorem LooseQ.enqPri (h : LooseQ t s a) (ho : (a.core.tcb t).waitObj = some o)
    (hh : heads a (.waitq o)) (hnd : (a.queue (.waitq o)).Nodup) :
    ∃ s', kqueueInsertPri t (.waitq o) s = .ok s' ∧ Refines s' (a.enqPri (.waitq o) t) := by
  have hring : Ring s.links (.waitq o) ((a.queue (.waitq o)).map .qnode) :=
    RefinesOff.ring (l := .waitq o) h ⟨hh, by simp [lineHead]⟩
  have hfind := kqueueFindPri_eq (s.core.tcb t).tskpri (by simp) hnd hring
  have hq := List.takeWhile_append_dropWhile
    (p := fun u => decide ((a.core.tcb u).tskpri ≤ (a.core.tcb t).tskpri))
    (l := a.queue (.waitq o))
  refine ⟨_, by rw [kqueueInsertPri, hfind]; rfl, ?_⟩
  rw [h.core]
  exact RefinesOff.insert (l := .waitq o) h (by simp) ⟨hh, by simp [lineHead]⟩ hq.symm rfl rfl
    (fun _ hx => .inr hx) (fun hh => by simp [lineNode, heads, ho] at hh) fun _ hf => hf.elim

/-- **`obj_make_wait`.** -/
theorem Refines.objMakeWait (tmout : TMO) (h : Refines s a) (hi : Settled a)
    (hs : (a.core.tcb t).state = .rdy) (ho : (a.core.objcb o).state ≠ .noexs) :
    ∃ s', objMakeWait t o tmout s = .ok s' ∧ Refines s' (a.objWait t o tmout) := by
  have h₁ := h.makeWait_setTcb tmout (f := fun tcb => { tcb with waitObj := some o })
    hi hs hs rfl
  obtain ⟨m, htcb⟩ := Model.startWait_tcb t tmout
    (a.setTcb t fun tcb => { tcb with waitObj := some o })
  rw [Model.setTcb_tcb_self] at htcb
  have hoth : Others t a
      ((a.setTcb t fun tcb => { tcb with waitObj := some o }).startWait t tmout) :=
    (Others.setTcb t _ a).trans (.startWait tmout hi.nodup)
  have hwait : (((a.setTcb t fun tcb => { tcb with waitObj := some o }).startWait t
      tmout).core.tcb t).waitObj = some o := by rw [htcb]
  have hh : heads ((a.setTcb t fun tcb => { tcb with waitObj := some o }).startWait t tmout)
      (.waitq o) := by
    have := heads_waitq hi.toLinesInv ho
    cases o with
    | sem i => exact fun hm => this (hoth.freeSem ▸ hm)
    | _ => trivial
  unfold Ittrium.objMakeWait Model.objWait
  dsimp only
  rw [h₁.core]
  split
  · exact LooseQ.enqPri h₁ hwait hh (hi.nodup_startWait tmout hs rfl _)
  · exact ⟨_, rfl, LooseQ.enq h₁ hwait hh⟩

/-- **A task sleeps or is delayed.** -/
theorem Refines.sleep (why : TskWait) (tmout : TMO) (h : Refines s a) (hi : Settled a)
    (hs : (a.core.tcb t).state = .rdy) :
    Refines ((Ittrium.makeWait t tmout (s.setTcb t fun tcb =>
      { tcb with waitObj := none, tskwait := why })).setLinks (kqueueInit (.qnode t)))
      (a.sleep t why tmout) := by
  have h₁ := h.makeWait_setTcb tmout (f := fun tcb => { tcb with waitObj := none, tskwait := why }) hi hs hs rfl
  exact h₁.selfLink rfl rfl (fun _ hx => .inr hx) fun _ hf => hf.elim

end Ittrium.Refine
