import Ittrium.Spec.Departures
import Ittrium.Spec.Timers

/-!
# Calls of handlers

A handler interrupts the running task, and the running task goes on with what it had.

* `fromHandler` — the calls handlers make
* `handler_uninterrupted` — **they leave every task alone that does not wait**
-/

namespace Ittrium.Spec

open Infra

variable {cfg : Config} {t u : TskIx cfg} {a a' : Model cfg} {c : Call cfg} {r : Ret cfg}

/-- The calls a handler makes. -/
def fromHandler : Call cfg → Bool
  | .iactTsk _ | .iwupTsk _ | .isigSem _ | .isetFlg _ _ | .timerHandler | .dispatch => true
  | _ => false

/-- Who does not wait goes on not to wait, and keeps the result of its last call. -/
def Uninterrupted (a a' : Model cfg) : Prop :=
  ∀ t, ¬ (a.core.tcb t).state.waiting →
    ¬ (a'.core.tcb t).state.waiting ∧ (a'.core.tcb t).ercd = (a.core.tcb t).ercd

theorem Uninterrupted.refl (a : Model cfg) : Uninterrupted a a := fun _ h => ⟨h, rfl⟩

/-- Data of a task that is neither about its wait nor its result. -/
theorem Uninterrupted.setTcb {f : TCB cfg → TCB cfg}
    (hs : (f (a.core.tcb u)).state = (a.core.tcb u).state)
    (he : (f (a.core.tcb u)).ercd = (a.core.tcb u).ercd) : Uninterrupted a (a.setTcb u f) := by
  intro t hw
  by_cases ht : t = u
  · subst ht
    rw [Model.setTcb_tcb_self, hs, he]
    exact ⟨hw, rfl⟩
  · rw [Model.setTcb_tcb_of_ne ht]
    exact ⟨hw, rfl⟩

/-- The frame of an activation, which does not depend on what runs. -/
theorem Uninterrupted.activate (u : TskIx cfg) (a : Model cfg) :
    Uninterrupted a (a.activate u) := by
  intro t hw
  have hframe : Frame (Call.scope a.core .dispatch) { a with runtsk := none }
      (Model.activate u { a with runtsk := none }) := .activate u _
  exact hframe.ercd t hw (by simp)

/-- The wait of another task ends. -/
theorem Uninterrupted.release (hst : Settled a) (hw : (a.core.tcb u).state.waiting) (e : ER) :
    Uninterrupted a (a.release u e) := by
  intro t ht
  have hne : t ≠ u := by
    rintro rfl
    exact ht hw
  rw [(Others.release e hst.nodup).tcb t hne]
  exact ⟨ht, rfl⟩

theorem Uninterrupted.offer (hst : Settled a) (j : FlgIx cfg)
    (hu : u ∈ a.queue (.waitq (.flg j))) : Uninterrupted a (a.offer j u) := by
  unfold Model.offer
  dsimp only
  split
  · have hset := hst.setRest (f := fun c => { c with
      flgvar := Function.update c.flgvar (a.core.tcb u).waitinfo.pFlgptn (c.flgcb j).flgptn })
      rfl rfl rfl rfl rfl
    intro t ht
    exact Uninterrupted.release hset.settled (hst.waiting_of_mem hu) .ok t ht
  · exact .refl a

/-- The tasks in the line of an eventflag are looked at one after the other. -/
theorem Uninterrupted.offerAll (j : FlgIx cfg) : ∀ (us : List (TskIx cfg)) (a : Model cfg),
    us.Nodup → (∀ u ∈ us, u ∈ a.queue (.waitq (.flg j))) → Settled a →
      Uninterrupted a (us.foldl (fun a u => a.offer j u) a)
  | [], a, _, _, _ => .refl a
  | u :: us, a, hnd, hm, hst => by
    obtain ⟨hno, hnd'⟩ := List.nodup_cons.mp hnd
    obtain ⟨hsteady, hstays⟩ := hst.offer (hm u (by simp))
    have hrest := offerAll j us _ hnd'
      (fun v hv => hstays v (fun he => hno (he ▸ hv)) (hm v (by simp [hv]))) hsteady.settled
    intro t ht
    obtain ⟨hw, he⟩ := Uninterrupted.offer hst j (hm u (by simp)) t ht
    obtain ⟨hw', he'⟩ := hrest t hw
    exact ⟨hw', he'.trans he⟩

/-- **A call of a handler leaves the tasks alone that do not wait.** -/
theorem handler_uninterrupted (ha : Inv a) (hc : fromHandler c = true)
    (he : exec c a = .ok (a', r)) : Uninterrupted a a' := by
  have hst := ha.toSettled
  suffices h : Ensures (exec c a) fun v => Uninterrupted a v.1 from h _ he
  -- each of the calls of a handler releases tasks, or leaves them alone
  cases c with
  | iactTsk tskid =>
    show Ensures (_actTsk tskid a) _
    unfold _actTsk
    refine .ite (fun _ => .ok (.refl a)) fun _ => .bind' fun u _ => ?_
    refine .ite (fun _ => .ok (.refl a)) fun _ => .ite (fun _ => ?_) fun _ => .ok ?_
    · refine .ite (fun _ => .ok (.refl a)) fun _ => .ok ?_
      exact .setTcb rfl rfl
    · exact .activate u a
  | iwupTsk tskid =>
    show Ensures (_wupTsk tskid a) _
    unfold _wupTsk
    refine .ite (fun _ => .ok (.refl a)) fun _ => .bind' fun u _ => ?_
    refine .ite (fun _ => .ok (.refl a)) fun _ => .ite (fun _ => .ok (.refl a)) fun _ => ?_
    refine .ite (fun hw => .ok (.release hst hw.1 .ok)) fun _ => ?_
    refine .ite (fun _ => .ok (.refl a)) fun _ => .ok ?_
    exact .setTcb rfl rfl
  | isigSem semid =>
    show Ensures (_sigSem semid a) _
    unfold _sigSem
    refine .ite (fun _ => .ok (.refl a)) fun _ => .bind' fun i _ => ?_
    refine .ite (fun _ => .ok (.refl a)) fun _ => ?_
    split
    · next u us hq =>
      exact .ok (.release hst (hst.waiting_of_mem (o := .sem i) (by rw [hq]; simp)) .ok)
    · exact .ite (fun _ => .ok (.refl a)) fun _ => .ok fun t hw => ⟨hw, rfl⟩
  | isetFlg flgid setptn =>
    show Ensures (_setFlg flgid setptn a) _
    unfold _setFlg
    refine .ite (fun _ => .ok (.refl a)) fun _ => .bind' fun j _ => ?_
    refine .ite (fun _ => .ok (.refl a)) fun _ => .ok fun t ht => ?_
    have hset := hst.setFlgcb (i := j) (f := fun cb => { cb with flgptn := cb.flgptn ||| setptn })
      fun _ => rfl
    exact Uninterrupted.offerAll j _ _ (hset.settled.nodup _) (fun _ hu => hu) hset.settled t ht
  | timerHandler =>
    refine .ok fun t hw => ?_
    rw [hst.timerHandler_tcb, if_neg fun hm => hw ((hst.task t).timer hm).1]
    unfold accountTcb
    dsimp only
    split <;> exact ⟨hw, rfl⟩
  | dispatch => exact .ok (.refl a)
  | _ => cases hc

end Ittrium.Spec
