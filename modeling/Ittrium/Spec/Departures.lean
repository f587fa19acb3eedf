import Ittrium.Spec.Frames

/-!
# How tasks leave the line of an object

* `Settled.release_waitq` — a release takes one task out of its line
* `exec_departs` — **a task leaves the line of an object because it is deleted, by timeout, or in a
  call on that object**, and keeps its result in the first two cases
-/

namespace Ittrium.Spec

open Infra

variable {cfg : Config} {a a' : Model cfg} {l : Line cfg} {t u : TskIx cfg} {o : ObjId cfg}
  {c : Call cfg} {r : Ret cfg}

/-! ## Releases -/

/-- A waiting task stands in no other object's line. -/
theorem Settled.waitObj_of_mem (h : Settled a) (ht : t ∈ a.queue (.waitq o)) :
    (a.core.tcb t).waitObj = some o :=
  (((h.task t).waitq o).mp ht).2

theorem Settled.waiting_of_mem (h : Settled a) (ht : t ∈ a.queue (.waitq o)) :
    (a.core.tcb t).state.waiting :=
  (((h.task t).waitq o).mp ht).1

/-- Who begins to wait has not been waiting. -/
theorem Blocked.not_mem {o' : Option (ObjId cfg)} {tmout : TMO} (h : Blocked t o' tmout a a')
    (ha : Settled a) : t ∉ a.queue (.waitq o) := by
  intro ht
  have hw := ha.waiting_of_mem ht
  simp [h.was, Stat.waiting_iff] at hw

/-- Those who wait go on waiting when another task begins to. -/
theorem Blocked.still {o' : Option (ObjId cfg)} {tmout : TMO} (h : Blocked t o' tmout a a')
    (ha : Settled a) (hu : u ∈ a.queue (.waitq o)) : u ∈ a'.queue (.waitq o) :=
  (h.others.mem u (fun he => h.not_mem ha (he ▸ hu)) _).mpr hu

/-- **A release takes one task out of its line.** -/
theorem Settled.release_waitq (h : Settled a) (t : TskIx cfg) (e : ER) (o : ObjId cfg) :
    (a.release t e).queue (.waitq o) = (a.queue (.waitq o)).erase t := by
  have hskip : (a.core.tcb t).waitObj ≠ some o → (a.queue (.waitq o)).erase t = a.queue (.waitq o) :=
    fun hne => List.erase_of_not_mem fun hm => hne (h.waitObj_of_mem hm)
  rw [Model.release_eq, Model.leaveWait_queue_of_ne (by simp)]
  show (a.cancel t).queue _ = _
  unfold Model.cancel
  rcases Model.deqObj_cases t (a.deq .timer t) with ⟨hn, hq⟩ | ⟨o', ho', hq⟩ <;> rw [hq]
  · rw [hskip (by rw [show (a.core.tcb t).waitObj = none from hn]; simp)]
    exact Model.deq_of_ne (by simp)
  · by_cases he : o = o'
    · subst he
      rw [Model.deq_self, Model.deq_of_ne (by simp)]
    · rw [Model.deq_of_ne (by simp [he]), Model.deq_of_ne (by simp), hskip]
      rw [show (a.core.tcb t).waitObj = some o' from ho']
      exact fun hs => he (Option.some.inj hs).symm

/-- The first task of a line is released. -/
theorem Settled.release_first {ts : List (TskIx cfg)} (h : Settled a) (e : ER)
    (hq : a.queue (.waitq o) = t :: ts) : (a.release t e).queue (.waitq o) = ts := by
  rw [h.release_waitq, hq, List.erase_cons_head]

theorem release_tcb_ercd (t : TskIx cfg) (e : ER) (a : Model cfg) :
    ((a.release t e).core.tcb t).ercd = e := by
  rw [Model.release_tcb]

/-- A released task is ready or suspended. -/
theorem release_tcb_state (t : TskIx cfg) (e : ER) (a : Model cfg) :
    ((a.release t e).core.tcb t).state = .rdy ∨ ((a.release t e).core.tcb t).state = .sus := by
  rw [Model.release_tcb]
  dsimp only
  split
  · exact Or.inl rfl
  · exact Or.inr rfl

/-! ## Results that stay -/

/-- All tasks keep the result of their last call. -/
def SameErcd (a a' : Model cfg) : Prop := ∀ t, (a'.core.tcb t).ercd = (a.core.tcb t).ercd

/-- A loop over tasks of a line whose every round keeps the results. -/
theorem foldl_sameErcd {op : Model cfg → TskIx cfg → Model cfg}
    (hop : ∀ a t, Settled a → t ∈ a.queue l →
      Steady a (op a t) ∧ Stays l t a (op a t) ∧ SameErcd a (op a t)) :
    ∀ (ts : List (TskIx cfg)) (a : Model cfg), ts.Nodup → (∀ t ∈ ts, t ∈ a.queue l) → Settled a →
      SameErcd a (ts.foldl op a)
  | [], _, _, _, _ => fun _ => rfl
  | t :: ts, a, hnd, hm, h => by
    obtain ⟨hs, hst, hr⟩ := hop a t h (hm t (by simp))
    obtain ⟨hno, hnd'⟩ := List.nodup_cons.mp hnd
    have hrest := foldl_sameErcd hop ts _ hnd'
      (fun u hu => hst u (fun he => hno (he ▸ hu)) (hm u (by simp [hu]))) hs.settled
    exact fun u => (hrest u).trans (hr u)

theorem SameErcd.setTcb {f : TCB cfg → TCB cfg} (hf : (f (a.core.tcb t)).ercd = (a.core.tcb t).ercd) :
    SameErcd a (a.setTcb t f) := by
  intro u
  by_cases hu : u = t
  · subst hu; rw [Model.setTcb_tcb_self, hf]
  · rw [Model.setTcb_tcb_of_ne hu]

theorem Settled.sameErcd_tickOne (h : Settled a) (t : TskIx cfg) : SameErcd a (a.tickOne t) := by
  have h₁ : SameErcd a (a.setTcb t fun tcb =>
      { tcb with wtmeb := { tcb.wtmeb with count := tcb.wtmeb.count - 1 } }) := .setTcb rfl
  have hoth := Others.tickOne h t
  intro u
  by_cases hu : u = t
  · subst hu
    unfold Model.tickOne
    dsimp only
    split
    · rw [Model.endWait_eq, release_tcb_ercd]
      exact h₁ u
    · exact h₁ u
  · rw [hoth.tcb u hu]

theorem Settled.sameErcd_timerHandler (h : Settled a) : SameErcd a (Spec.timerHandler a) := by
  have h₀ : Settled (a.setCore fun c => (timerHwEnter c).2) := h.setTicks rfl rfl
  have hacc : SameErcd a (a.setCore fun c => (timerHwEnter c).2).account := by
    unfold Model.account
    dsimp only
    split
    · exact SameErcd.setTcb (a := (a.setCore fun c => (timerHwEnter c).2).setCore _) rfl
    · exact fun _ => rfl
  have htick : SameErcd (a.setCore fun c => (timerHwEnter c).2).account
      (a.setCore fun c => (timerHwEnter c).2).account.tick :=
    foldl_sameErcd (fun a t h ht => ⟨h.tickOne ((h.task t).timer ht).1,
      (Others.tickOne h t).stays _, h.sameErcd_tickOne t⟩) _ _ (h₀.account.settled.nodup _)
      (fun _ ht => ht) h₀.account.settled
  intro t
  have hexit := timerHwExit_tcb (a.setCore fun c => (timerHwEnter c).2).account.tick.core
  rw [show (Spec.timerHandler a).core.tcb = _ from hexit]
  exact (htick t).trans (hacc t)

theorem delete_sameErcd (h : Settled a) (t : TskIx cfg) : SameErcd a (a.delete t) := by
  intro u
  by_cases hu : u = t
  · subst hu; rw [Model.delete_tcb_eq]
  · rw [(Others.delete h).tcb u hu]

/-! ## Departures -/

/-- What `del_tsk` does, if it does anything. -/
theorem delTsk_cases {tskid : Int} (he : Spec.delTsk tskid a = .ok (a', r)) :
    a' = a ∨ r = .er .ok ∧ ∃ t, getTcb tskid = .ok t ∧ (a.core.tcb t).state ≠ .noexs ∧
      a' = (a.delete t).dispatch := by
  refine Ensures.mono (P := fun v => v.1 = a ∨ v.2 = .er .ok ∧ ∃ t, getTcb tskid = .ok t ∧
    (a.core.tcb t).state ≠ .noexs ∧ v.1 = (a.delete t).dispatch) ?_ (fun _ h => h) _ he
  unfold Spec.delTsk
  refine .ite (fun _ => .ok (Or.inl rfl)) fun _ => .bind' fun t ht => ?_
  refine .ite (fun _ => .ok (Or.inl rfl)) fun hs => .ite (fun _ => .ok (Or.inl rfl)) fun _ => ?_
  exact .ok (Or.inr ⟨rfl, t, ht, hs, rfl⟩)

/-- Why a task has left the line of an object. -/
inductive Departure (c : Call cfg) (o : ObjId cfg) (t : TskIx cfg) (a a' : Model cfg) : Prop where
  | deleted : (∃ tskid, c = .delTsk tskid) → (a'.core.tcb t).state = .noexs →
      (a'.core.tcb t).ercd = (a.core.tcb t).ercd → Departure c o t a a'
  | timeout : c = .timerHandler → (a'.core.tcb t).ercd = (a.core.tcb t).ercd → Departure c o t a a'
  | call : Call.obj c = some o → Departure c o t a a'

/-- **A task leaves the line of an object because it is deleted, by timeout, or in a call on that
object.** -/
theorem exec_departs (h : Inv a) (hs : Sound a.core c) (he : exec c a = .ok (a', r))
    (ht : t ∈ a.queue (.waitq o)) (hn : t ∉ a'.queue (.waitq o)) : Departure c o t a a' := by
  have hf := exec_frame h hs _ he
  have hS : (Call.scope a.core c).queue o := by
    by_contra hS
    exact hn ((hf.queue o hS).symm ▸ ht)
  cases c with
  | delTsk tskid =>
    rcases delTsk_cases he with rfl | ⟨-, u, -, hu, rfl⟩
    · exact absurd ht hn
    · have hut : t = u := by
        by_contra hne
        exact hn (((Others.delete h.toSettled).mem t hne _).mpr ht)
      subst hut
      have htcb := Model.delete_tcb_eq t a
      exact .deleted ⟨_, rfl⟩ (congrArg TCB.state htcb) (delete_sameErcd h.toSettled t t)
  | timerHandler =>
    obtain rfl : Spec.timerHandler a = a' := congrArg Prod.fst (Except.ok.inj he)
    exact .timeout rfl (h.toSettled.sameErcd_timerHandler t)
  | _ => exact .call hS

/-- Who has left the line of an object waits no longer. -/
theorem exec_leaves (h : Inv a) (hs : Sound a.core c) (he : exec c a = .ok (a', r))
    (ht : t ∈ a.queue (.waitq o)) (hn : t ∉ a'.queue (.waitq o)) :
    ¬ (a'.core.tcb t).state.waiting := by
  have hst := h.toSettled
  have hcalm : Calm a a' → ¬ (a'.core.tcb t).state.waiting := by
    intro hc hw
    refine hn (((hc.settled.task t).waitq o).mpr ⟨hw, ?_⟩)
    rw [(hc.keep t hw).2.1.waitObj]
    exact hst.waitObj_of_mem ht
  cases exec_step h hs _ he with
  | steady _ hc => exact hcalm hc.toCalm
  | dispatch _ hc => exact hcalm hc.dispatch
  | @blocked u _ _ b _ _ hb =>
    have hne : t ≠ u := by
      rintro rfl
      have hw := hst.waiting_of_mem ht
      simp [hb.was, Stat.waiting_iff] at hw
    exact absurd ((hb.others.mem t hne _).mpr ht) hn

/-- **A call on another object.** Nobody joins the line, and who leaves has the result of a
timeout. -/
theorem exec_line_of_other (h : Inv a) (hs : Sound a.core c) (he : exec c a = .ok (a', r))
    (ho : Call.obj c ≠ some o) :
    (a'.queue (.waitq o) ≠ [] → a.queue (.waitq o) ≠ []) ∧
    ∀ t ∈ a.queue (.waitq o), t ∉ a'.queue (.waitq o) → (a'.core.tcb t).ercd = .tmout := by
  have hst := h.toSettled
  refine ⟨fun hq hnil => ?_, fun t ht hn => ?_⟩
  · cases exec_step h hs _ he with
    | steady _ hc => exact hq (List.sublist_nil.mp (hnil ▸ hc.sub _))
    | dispatch _ hc => exact hq (List.sublist_nil.mp (hnil ▸ hc.sub _))
    | blocked hw _ hb =>
      refine hq ((hb.waitq o fun he => ho ?_).trans hnil)
      exact Call.obj_of_wait (he ▸ hw)
  · have htm := (hst.task t).ercd (hst.waiting_of_mem ht) (by rw [hst.waitObj_of_mem ht]; simp)
    cases exec_departs h hs he ht hn with
    | deleted _ _ hr => exact hr.trans htm
    | timeout _ hr => exact hr.trans htm
    | call hc => exact absurd hc ho

end Ittrium.Spec
