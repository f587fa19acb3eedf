import Ittrium.Refine.Tasks

/-!
# The loops of the kernel end, and what they do

* `Refines.waitDelete` — the loop of `wait_delete` releases the line, one task a round
* `Refines.setFlgLoop` — the walk of `_set_flg` passes every task once, though it unlinks some
* `Refines.timerLoop` — the walk of `timer_handler` does the same
* `Refines.takeSem`, `Refines.giveSem` — the list of free semaphores
-/

namespace Ittrium.Refine

open Infra Spec

variable {cfg : Config} {s : Kernel cfg} {a : Model cfg} {t u : TskIx cfg} {o : ObjId cfg}
  {l : Line cfg}

/-! ## Lines while tasks leave them -/

/-- The line of the object a task waits for, after its wait has ended. -/
theorem release_waitq (e : ER) (ho : (a.core.tcb t).waitObj = some o) :
    (a.release t e).queue (.waitq o) = (a.queue (.waitq o)).erase t := by
  rw [Model.release_eq, Model.leaveWait_queue_of_ne (by simp)]
  show (a.cancel t).queue _ = _
  unfold Model.cancel Model.deqObj
  rw [Model.deq_core, ho]
  show ((a.deq .timer t).deq (.waitq o) t).queue _ = _
  simp only [Model.deq, Function.update_self, ne_eq, reduceCtorEq, not_false_eq_true,
    Function.update_of_ne]

/-- The timer queue after the wait of a task has ended. -/
theorem release_timer (e : ER) : (a.release t e).queue .timer = (a.queue .timer).erase t := by
  rw [Model.release_eq, Model.leaveWait_queue_of_ne (by simp)]
  show (a.cancel t).queue _ = _
  unfold Model.cancel
  rcases Model.deqObj_cases t (a.deq .timer t) with ⟨-, h⟩ | ⟨o, -, h⟩ <;> rw [h]
  · exact Model.deq_self
  · rw [Model.deq_of_ne (by simp)]
    exact Model.deq_self

/-- Taking `t` out of a line in which it stands between `ts₁` and `ts₂`. -/
theorem erase_mid {ts₁ ts₂ : List (TskIx cfg)} (h : (ts₁ ++ t :: ts₂).Nodup) :
    (ts₁ ++ t :: ts₂).erase t = ts₁ ++ ts₂ := by
  have hno : t ∉ ts₁ := fun hm =>
    (List.disjoint_of_nodup_append h) hm (List.mem_cons_self)
  rw [List.erase_append_right _ hno, List.erase_cons_head]

/-- The next task of a line. -/
theorem Refines.next {ts₁ ts₂ : List (TskIx cfg)} (h : Refines s a) (hl : heads a (lineHead l))
    (hq : a.queue l = ts₁ ++ t :: ts₂) :
    s.links.next (lineNode l t) = (ts₂.map (lineNode l)).head?.getD (lineHead l) := by
  have hr := RefinesOff.ring h ⟨hl, id⟩
  rw [hq, List.map_append, List.map_cons] at hr
  exact hr.next_mid

/-- The first task of a line. -/
theorem Refines.first (h : Refines s a) (hl : heads a (lineHead l)) :
    s.links.next (lineHead l) = ((a.queue l).map (lineNode l)).head?.getD (lineHead l) :=
  (RefinesOff.ring h ⟨hl, id⟩).next_head

/-- `kqueue_empty` of a line. -/
theorem Refines.empty (h : Refines s a) (hl : heads a (lineHead l)) :
    kqueueEmpty (lineHead l) s.links ↔ a.queue l = [] := by
  rw [kqueueEmpty_iff h.rings ⟨hl, id⟩, elems_lineHead, List.map_eq_nil_iff]

/-! ## `wait_delete` -/

/-- One round. -/
theorem waitDeleteLoop_round {waitq : Node cfg} (n : Nat) (hE : ¬ kqueueEmpty waitq s.links = true)
    (hf : s.links.next waitq = .qnode t) :
    waitDeleteLoop waitq (n + 1) s =
      waitDeleteLoop waitq n (waitRelease t (s.setTcb t fun tcb => { tcb with ercd := .dlt })) := by
  rw [Ittrium.waitDeleteLoop, if_neg hE, hf]
  rfl

theorem Refines.waitDeleteLoop (ts : List (TskIx cfg)) (n : Nat) (h : Refines s a)
    (hi : Settled a) (ho : (a.core.objcb o).state ≠ .noexs) (hq : a.queue (.waitq o) = ts)
    (hn : ts.length < n) :
    ∃ s', Ittrium.waitDeleteLoop (.waitq o) n s = .ok s' ∧
      Refines s' (ts.foldl (fun a t => a.release t .dlt) a) := by
  induction ts generalizing n s a with
  | nil =>
    obtain ⟨n, rfl⟩ : ∃ m, n = m + 1 := ⟨n - 1, by simp at hn; omega⟩
    have hE := (h.empty (l := .waitq o) (heads_waitq hi.toLinesInv ho)).mpr hq
    exact ⟨s, by rw [Ittrium.waitDeleteLoop]; exact if_pos hE, h⟩
  | cons t ts ih =>
    obtain ⟨n, rfl⟩ : ∃ m, n = m + 1 := ⟨n - 1, by simp at hn; omega⟩
    have hh := heads_waitq hi.toLinesInv ho
    have hempty : kqueueEmpty (.waitq o) s.links = true ↔ _ := h.empty (l := .waitq o) hh
    have hE : ¬ kqueueEmpty (.waitq o) s.links = true := by
      rw [hempty, hq]
      simp
    have hfirst : s.links.next (.waitq o) = _ := h.first (l := .waitq o) hh
    rw [hq] at hfirst
    obtain ⟨hw, hwo⟩ := ((hi.task t).waitq o).mp (by rw [hq]; simp)
    have hq₁ : (a.release t .dlt).queue (.waitq o) = ts := by
      rw [release_waitq .dlt hwo, hq, List.erase_cons_head]
    have ho₁ : ((a.release t .dlt).core.objcb o).state ≠ .noexs := by
      rw [(release_objects t .dlt a).objcb]
      exact ho
    rw [waitDeleteLoop_round n hE hfirst]
    exact ih n (h.release hi .dlt hw) (hi.release .dlt hw).settled ho₁ hq₁ (by simpa using hn)

/-- **`wait_delete` ends and releases all waiting tasks.** -/
theorem Refines.waitDelete (h : Refines s a) (hi : Settled a)
    (ho : (a.core.objcb o).state ≠ .noexs) :
    ∃ s', waitDelete (.waitq o) s = .ok s' ∧ Refines s' (a.releaseAll o) :=
  Refines.waitDeleteLoop _ _ h hi ho rfl
    (by have := length_le_of_nodup (hi.nodup (.waitq o)); omega)

/-! ## The walk of `_set_flg` -/

theorem Refines.offer {i : FlgIx cfg} {w : WaitInfo} (h : Refines s a) (hi : Settled a)
    (hm : t ∈ a.queue (.waitq (.flg i))) (hw : w = (a.core.tcb t).waitinfo) :
    Refines
      (if eventflagCond (s.core.flgcb i) w.waiptn w.wfmode then
        (waitReleaseOk t (s.setCore fun c =>
          { c with flgvar := Function.update c.flgvar w.pFlgptn (c.flgcb i).flgptn })).setCore
            (Core.setFlgcb i clearFlgptn)
      else s)
      (a.offer i t) := by
  unfold Model.offer
  dsimp only
  rw [h.core, ← hw]
  split
  · have h₁ : Refines (s.setCore fun c =>
        { c with flgvar := Function.update c.flgvar w.pFlgptn (c.flgcb i).flgptn })
        (a.setCore fun c =>
        { c with flgvar := Function.update c.flgvar w.pFlgptn (c.flgcb i).flgptn }) :=
      h.setCore_same fun _ => ⟨rfl, rfl⟩
    have hi₁ := (hi.setRest (f := fun c =>
      { c with flgvar := Function.update c.flgvar w.pFlgptn (c.flgcb i).flgptn })
      rfl rfl rfl rfl rfl).settled
    exact (h₁.release hi₁ .ok (((hi.task t).waitq _).mp hm).1).setCore_same fun _ => ⟨rfl, rfl⟩
  · exact h

theorem offer_waitq {i : FlgIx cfg} (ho : (a.core.tcb t).waitObj = some (.flg i)) :
    (a.offer i t).queue (.waitq (.flg i)) = a.queue (.waitq (.flg i)) ∨
      (a.offer i t).queue (.waitq (.flg i)) = (a.queue (.waitq (.flg i))).erase t := by
  unfold Model.offer
  dsimp only
  split
  · exact Or.inr (release_waitq .ok ho)
  · exact Or.inl rfl

/-- One round: the next task is looked up before this one may leave. -/
theorem setFlgLoop_round {i : FlgIx cfg} {w : WaitInfo} (n : Nat)
    (hw : (s.core.tcb t).waitinfo = w) :
    setFlgLoop i (n + 1) (.qnode t) s = setFlgLoop i n (s.links.next (.qnode t))
      (if eventflagCond (s.core.flgcb i) w.waiptn w.wfmode then
        (waitReleaseOk t (s.setCore fun c =>
          { c with flgvar := Function.update c.flgvar w.pFlgptn (c.flgcb i).flgptn })).setCore
            (Core.setFlgcb i clearFlgptn)
      else s) := by
  rw [Ittrium.setFlgLoop, if_neg (by simp)]
  simp only [tcbOf, bind, Except.bind, hw]
  split <;> rfl

theorem Refines.setFlgLoop {i : FlgIx cfg} (ts ts₁ : List (TskIx cfg)) (n : Nat)
    (h : Refines s a) (hi : Settled a) (hq : a.queue (.waitq (.flg i)) = ts₁ ++ ts)
    (hn : ts.length < n) :
    ∃ s', Ittrium.setFlgLoop i n ((ts.map .qnode).head?.getD (.waitq (.flg i))) s = .ok s' ∧
      Refines s' (ts.foldl (fun a t => a.offer i t) a) := by
  induction ts generalizing ts₁ n s a with
  | nil =>
    obtain ⟨n, rfl⟩ : ∃ m, n = m + 1 := ⟨n - 1, by simp at hn; omega⟩
    exact ⟨s, by simp [Ittrium.setFlgLoop], h⟩
  | cons t ts ih =>
    obtain ⟨n, rfl⟩ : ∃ m, n = m + 1 := ⟨n - 1, by simp at hn; omega⟩
    have hm : t ∈ a.queue (.waitq (.flg i)) := by rw [hq]; simp
    have hnext : s.links.next (.qnode t) = _ := h.next (l := .waitq (.flg i)) trivial hq
    obtain ⟨ts₁', hq₁⟩ : ∃ ts₁', (a.offer i t).queue (.waitq (.flg i)) = ts₁' ++ ts := by
      rcases offer_waitq (((hi.task t).waitq _).mp hm).2 with he | he
      · exact ⟨ts₁ ++ [t], by rw [he, hq]; simp⟩
      · have hnd := hi.nodup (.waitq (.flg i))
        rw [hq] at hnd
        exact ⟨ts₁, by rw [he, hq, erase_mid hnd]⟩
    show ∃ s', Ittrium.setFlgLoop i (n + 1) (.qnode t) s = .ok s' ∧ _
    rw [setFlgLoop_round n (congrArg (fun c : Core cfg => (c.tcb t).waitinfo) h.core), hnext]
    exact ih ts₁' n (h.offer hi hm rfl) (hi.offer hm).1.settled hq₁ (by simpa using hn)

/-- **The walk of `_set_flg` ends, and every waiting task is offered the pattern once.** -/
theorem Refines.offerAll {i : FlgIx cfg} (h : Refines s a) (hi : Settled a) :
    ∃ s', Ittrium.setFlgLoop i (cfg.tnumTskid + 1) (s.links.next (.waitq (.flg i))) s = .ok s' ∧
      Refines s' ((a.queue (.waitq (.flg i))).foldl (fun a t => a.offer i t) a) := by
  have hfirst : s.links.next (.waitq (.flg i)) = _ := h.first (l := .waitq (.flg i)) trivial
  have hlen := length_le_of_nodup (hi.nodup (.waitq (.flg i)))
  rw [hfirst]
  exact Refines.setFlgLoop _ [] _ h hi rfl (by omega)

/-! ## The walk of `timer_handler` -/

theorem Refines.tickOne (h : Refines s a) (hi : Settled a) (hm : t ∈ a.queue .timer)
    {s₁ : Kernel cfg} (hs₁ : s₁ = s.setTcb t fun tcb =>
      { tcb with wtmeb := { tcb.wtmeb with count := tcb.wtmeb.count - 1 } }) :
    Refines (if (s₁.core.tcb t).wtmeb.count = 0 then waitRelease t s₁ else s₁) (a.tickOne t) := by
  have h₁ : Refines s₁ (a.setTcb t fun tcb =>
      { tcb with wtmeb := { tcb.wtmeb with count := tcb.wtmeb.count - 1 } }) :=
    hs₁ ▸ h.setTcb_same rfl rfl
  have hi₁ := (hi.setTcb (t := t) (f := fun tcb =>
    { tcb with wtmeb := { tcb.wtmeb with count := tcb.wtmeb.count - 1 } })
    ⟨rfl, rfl, rfl, rfl, rfl, rfl, rfl, rfl, fun _ => ⟨rfl, rfl⟩⟩).settled
  unfold Model.tickOne
  dsimp only
  rw [h₁.core]
  split
  · refine h₁.endWait hi₁ ?_
    rw [Model.setTcb_tcb_self]
    exact ((hi.task t).timer hm).1
  · exact h₁

theorem tickOne_timer : (a.tickOne t).queue .timer = a.queue .timer ∨
    (a.tickOne t).queue .timer = (a.queue .timer).erase t := by
  unfold Model.tickOne
  dsimp only
  split
  · right
    rw [Model.endWait_eq, release_timer]
    rfl
  · exact Or.inl rfl

/-- One round: the next event is looked up before this one may be taken off the queue. -/
theorem timerLoop_round (n : Nat) (hc : (s.core.tcb t).wtmeb.callback = some .waitReleaseTmout)
    (ha : (s.core.tcb t).wtmeb.arg = .qnode t) {s₁ : Kernel cfg}
    (hs₁ : s₁ = s.setTcb t fun tcb =>
      { tcb with wtmeb := { tcb.wtmeb with count := tcb.wtmeb.count - 1 } }) :
    timerLoop (n + 1) (.wtmeb t) s = timerLoop n (s.links.next (.wtmeb t))
      (if (s₁.core.tcb t).wtmeb.count = 0 then waitRelease t s₁ else s₁) := by
  have hm : ((s₁.setLinks (kqueueRemove (.wtmeb t))).core.tcb t).wtmeb =
      { (s.core.tcb t).wtmeb with count := (s.core.tcb t).wtmeb.count - 1 } := by
    simp [hs₁, Kernel.setLinks, Kernel.setTcb, Kernel.setCore, Core.setTcb]
  rw [Ittrium.timerLoop]
  simp only [← hs₁]
  split
  · rw [hm, runCallback]
    simp only [hc, ha]
    rfl
  · rfl

theorem Refines.timerLoop (ts ts₁ : List (TskIx cfg)) (n : Nat) (h : Refines s a)
    (hi : Settled a) (hq : a.queue .timer = ts₁ ++ ts) (hn : ts.length < n) :
    ∃ s', Ittrium.timerLoop n ((ts.map .wtmeb).head?.getD .timerQueue) s = .ok s' ∧
      Refines s' (ts.foldl (fun a t => a.tickOne t) a) := by
  induction ts generalizing ts₁ n s a with
  | nil =>
    obtain ⟨n, rfl⟩ : ∃ m, n = m + 1 := ⟨n - 1, by simp at hn; omega⟩
    exact ⟨s, rfl, h⟩
  | cons t ts ih =>
    obtain ⟨n, rfl⟩ : ∃ m, n = m + 1 := ⟨n - 1, by simp at hn; omega⟩
    have hm : t ∈ a.queue .timer := by rw [hq]; simp
    obtain ⟨hw, hcb, harg⟩ := (hi.task t).timer hm
    have hnext : s.links.next (.wtmeb t) = _ := h.next (l := .timer) trivial hq
    obtain ⟨ts₁', hq₁⟩ : ∃ ts₁', (a.tickOne t).queue .timer = ts₁' ++ ts := by
      rcases tickOne_timer (a := a) (t := t) with he | he
      · exact ⟨ts₁ ++ [t], by rw [he, hq]; simp⟩
      · have hnd := hi.nodup .timer
        rw [hq] at hnd
        exact ⟨ts₁, by rw [he, hq, erase_mid hnd]⟩
    show ∃ s', Ittrium.timerLoop (n + 1) (.wtmeb t) s = .ok s' ∧ _
    rw [timerLoop_round n (by rw [h.core]; exact hcb) (by rw [h.core]; exact harg) rfl, hnext]
    exact ih ts₁' n (h.tickOne hi hm rfl) (hi.tickOne hw).settled hq₁ (by simpa using hn)

/-- **The walk of `timer_handler` ends, and every event ticks once.** -/
theorem Refines.tick (h : Refines s a) (hi : Settled a) :
    ∃ s', Ittrium.timerLoop (cfg.tnumTskid + 1) (s.links.next .timerQueue) s = .ok s' ∧
      Refines s' a.tick := by
  have hfirst : s.links.next .timerQueue = _ := h.first (l := .timer) trivial
  have hlen := length_le_of_nodup (hi.nodup .timer)
  rw [hfirst]
  exact Refines.timerLoop _ [] _ h hi rfl (by omega)

/-! ## Free semaphores, and objects without waiting tasks -/

/-- The list of free semaphores, a semaphore and the links change together. -/
theorem Refines.setSem {i : SemIx cfg} {f : SEMCB → SEMCB} {free : List (SemIx cfg)}
    {g : Links (Node cfg) → Links (Node cfg)} {a' : Model cfg} (h : Refines s a)
    (ha : a' = { a with freeSem := free, core := a.core.setSemcb i f })
    (hrings : RingFamily (g s.links) (fun r => heads a' r ∧ ¬ False) (elems a')) :
    Refines ((s.setLinks g).setCore (Core.setSemcb i f)) a' := by
  subst ha
  exact { core := by
            show Core.setSemcb i f s.core = _
            rw [h.core]
          runtsk := h.runtsk
          schedtsk := h.schedtsk
          onLines := h.onLines
          rdyq := h.rdyq
          rings := hrings
          off := fun _ hf => hf.elim }

/-- **A free semaphore is taken off the list, and its wait queue is initialized.** -/
theorem Refines.takeSem {i : SemIx cfg} {cb : SEMCB} (h : Refines s a) (hi : Settled a)
    (hs : (a.core.semcb i).obj.state = .noexs) :
    Refines (((s.setLinks (kqueueRemove (.waitq (.sem i)))).setLinks
        (kqueueInit (.waitq (.sem i)))).setCore (Core.setSemcb i fun _ => cb))
      { a with freeSem := a.freeSem.erase i, core := a.core.setSemcb i fun _ => cb } := by
  have hq := hi.waitq_eq_nil (o := .sem i) hs
  obtain ⟨l₁, l₂, -, hfree, herase⟩ := List.exists_erase_eq ((hi.mem_freeSem i).mpr hs)
  have hhead : heads a .freeSemcb ∧ ¬ False := ⟨trivial, id⟩
  have hE : elems a .freeSemcb = (l₁.map fun j => Node.waitq (.sem j)) ++
      .waitq (.sem i) :: l₂.map fun j => .waitq (.sem j) := by
    simp only [elems, hfree, List.map_append, List.map_cons]
  have hrem := kqueueRemove_family h.rings hhead hE
  -- `kqueue_init` makes the node a ring of its own, the wait queue of the new semaphore
  have hself := hrem.selfLink (h.rings.offRings_of_unlink hhead hE)
  refine h.setSem (g := fun g => kqueueInit (.waitq (.sem i)) (kqueueRemove (.waitq (.sem i)) g))
    rfl (hself.mono fun r hr => ⟨?_, ?_⟩)
  · cases r with
    | waitq o =>
      cases o with
      | sem j =>
        by_cases hj : j = i
        · exact Or.inl (by rw [hj])
        · exact Or.inr ⟨fun hm => hr.1 ((List.mem_erase_of_ne hj).mpr hm), id⟩
      | _ => exact Or.inr hr
    | _ => exact Or.inr hr
  · by_cases hw : r = .waitq (.sem i)
    · rw [hw, Function.update_self]
      show (a.queue _).map _ = _
      rw [hq, List.map_nil]
    · rw [Function.update_of_ne hw]
      by_cases hf : r = .freeSemcb
      · subst hf
        rw [Function.update_self]
        show (a.freeSem.erase i).map _ = _
        rw [herase, List.map_append]
      · rw [Function.update_of_ne hf]
        cases r <;> first | rfl | exact absurd rfl hf

/-- **A semaphore without waiting tasks goes back to the list.** -/
theorem Refines.giveSem {i : SemIx cfg} {f : SEMCB → SEMCB} (h : Refines s a)
    (hs : i ∉ a.freeSem) :
    Refines ((s.setCore (Core.setSemcb i f)).setLinks (kqueueInsert (.waitq (.sem i)) .freeSemcb))
      { a with freeSem := a.freeSem ++ [i], core := a.core.setSemcb i f } := by
  have hw : heads a (.waitq (.sem i)) ∧ ¬ False := ⟨hs, id⟩
  have hf : RingFamily s.links (fun r => heads a r ∧ r ≠ .waitq (.sem i)) (elems a) :=
    h.rings.mono fun r hr => ⟨⟨hr.1, id⟩, rfl⟩
  have hnil : elems a .freeSemcb = elems a .freeSemcb ++ [] := (List.append_nil _).symm
  have hhead : heads a .freeSemcb ∧ Node.freeSemcb ≠ .waitq (.sem i) := ⟨trivial, by simp⟩
  have hins := kqueueInsert_family (x := .waitq (.sem i)) hf hhead
    (fun r hr => h.rings.notMem_of_ne hw ⟨hr.1, id⟩ (Ne.symm hr.2) (by simp)) hnil
  refine h.setSem rfl (hins.mono fun r hr => ?_)
  have hne : r ≠ .waitq (.sem i) := by
    rintro rfl
    exact hr.1 (by simp)
  refine ⟨⟨?_, hne⟩, ?_⟩
  · cases r with
    | waitq o =>
      cases o with
      | sem j => exact fun hm => hr.1 (List.mem_append_left _ hm)
      | _ => trivial
    | _ => exact hr.1
  · by_cases hfr : r = .freeSemcb
    · subst hfr
      rw [Function.update_self]
      exact List.map_append
    · rw [Function.update_of_ne hfr]
      cases r <;> first | rfl | exact absurd rfl hfr

/-- The wait queue of an object without waiting tasks is initialized once more. -/
theorem Refines.reinit (h : Refines s a) (ho : ∀ r, .waitq o ∉ elems a r)
    (hq : a.queue (.waitq o) = []) : Refines (s.setLinks (kqueueInit (.waitq o))) a := by
  have h₁ : RefinesOff (fun x => x = .waitq o) s a :=
    h.mono (fun x hx r => hx ▸ ho r) fun _ _ _ hf => hf
  exact h₁.selfLink rfl (by simp [elems, hq]) (fun _ hx => .inr hx) fun _ hf => hf.elim

end Ittrium.Refine
