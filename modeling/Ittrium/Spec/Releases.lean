import Ittrium.Spec.Departures
import Mathlib.Order.Fin.Basic

/-!
# Releasing all waiting tasks of an object

* `released e tcb` — the control block of a task whose wait has ended with result `e`
* `release_ready`, `release_timer` — what one release does to the ready lines and the timer queue
* `Settled.releaseAll_tcb`, `releaseAll_ready`, `releaseAll_timer` — **what they do together**
-/

namespace Ittrium.Spec

open Infra

variable {cfg : Config} {a a' : Model cfg} {l : Line cfg} {t u : TskIx cfg} {o : ObjId cfg}

/-- The control block of a task whose wait has ended with result `e`: ready, or suspended if it
was suspended as well. -/
def released (e : ER) (tcb : TCB cfg) : TCB cfg :=
  { tcb with
    ercd := e
    tskwait := .none
    state := if tcb.state = .wai then .rdy else .sus }

theorem release_tcb_self (t : TskIx cfg) (e : ER) (a : Model cfg) :
    (a.release t e).core.tcb t = released e (a.core.tcb t) :=
  Model.release_tcb t e a

/-! ## One release -/

/-- A release is of one line of an object at most, and of the timer queue. -/
theorem cancel_queue_of_ne (h₁ : ∀ o, l ≠ .waitq o) (h₂ : l ≠ .timer) :
    (a.cancel t).queue l = a.queue l := by
  unfold Model.cancel
  rcases Model.deqObj_cases t (a.deq .timer t) with ⟨-, h⟩ | ⟨o, -, h⟩ <;> rw [h]
  · exact Model.deq_of_ne h₂
  · rw [Model.deq_of_ne (h₁ o), Model.deq_of_ne h₂]

/-- A task that is not suspended joins its ready line. -/
theorem release_ready (t : TskIx cfg) (e : ER) (a : Model cfg) (p : Int) :
    (a.release t e).queue (.ready p) = a.queue (.ready p) ++
      if (a.core.tcb t).state = .wai ∧ (a.core.tcb t).tskpri = p then [t] else [] := by
  rw [Model.release_eq]
  have hstate : (((a.cancel t).setTcb t fun tcb => { tcb with ercd := e }).setTcb t
      fun tcb => { tcb with tskwait := .none }).core.tcb t =
      { a.core.tcb t with ercd := e, tskwait := .none } := by
    rw [Model.setTcb_tcb_self, Model.setTcb_tcb_self, Model.cancel_core]
  have hq : ((a.cancel t).queue (.ready p)) = a.queue (.ready p) :=
    cancel_queue_of_ne (by simp) (by simp)
  unfold Model.leaveWait
  dsimp only
  by_cases hw : (a.core.tcb t).state = .wai
  · rw [if_pos (by rw [hstate]; exact hw)]
    unfold Model.makeReady
    rw [hstate]
    by_cases hp : (a.core.tcb t).tskpri = p
    · subst hp
      rw [if_pos ⟨hw, rfl⟩, ← hq]
      exact Function.update_self ..
    · rw [if_neg fun h => hp h.2, List.append_nil, ← hq]
      exact Model.enq_of_ne (by simpa using Ne.symm hp)
  · rw [if_neg (by rw [hstate]; exact hw), if_neg fun h => hw h.1, List.append_nil, ← hq]
    rfl

theorem release_timer (t : TskIx cfg) (e : ER) (a : Model cfg) :
    (a.release t e).queue .timer = (a.queue .timer).erase t := by
  rw [Model.release_eq, Model.leaveWait_queue_of_ne (by simp)]
  show (a.cancel t).queue _ = _
  unfold Model.cancel
  rcases Model.deqObj_cases t (a.deq .timer t) with ⟨-, h⟩ | ⟨o, -, h⟩ <;> rw [h]
  · exact Model.deq_self
  · rw [Model.deq_of_ne (by simp), Model.deq_self]

/-! ## All releases -/

/-- The tasks of an object's line that are still to be released. -/
structure Queued (o : ObjId cfg) (ts : List (TskIx cfg)) (a : Model cfg) : Prop where
  settled : Settled a
  nodup : ts.Nodup
  mem : ∀ t ∈ ts, t ∈ a.queue (.waitq o)

theorem Settled.queued (h : Settled a) (o : ObjId cfg) : Queued o (a.queue (.waitq o)) a :=
  ⟨h, h.nodup _, fun _ ht => ht⟩

theorem Queued.rest {ts : List (TskIx cfg)} (h : Queued o (t :: ts) a) (e : ER) :
    Queued o ts (a.release t e) := by
  obtain ⟨hno, hnd⟩ := List.nodup_cons.mp h.nodup
  have hw := h.settled.waiting_of_mem (h.mem t (by simp))
  have hoth : Others t a (a.release t e) := .release e h.settled.nodup
  refine ⟨(h.settled.release e hw).settled, hnd, fun u hu => ?_⟩
  have hne : u ≠ t := fun he => hno (he ▸ hu)
  exact hoth.mem_of_ne hne (h.mem u (by simp [hu]))

/-- **Each of the tasks is released once, and nobody else is touched.** -/
theorem Queued.foldl_tcb (u : TskIx cfg) : ∀ {ts : List (TskIx cfg)} {a : Model cfg},
    Queued o ts a →
    (u ∈ ts → (ts.foldl (fun a t => a.release t .dlt) a).core.tcb u =
      released .dlt (a.core.tcb u)) ∧
    (u ∉ ts → (ts.foldl (fun a t => a.release t .dlt) a).core.tcb u = a.core.tcb u) := by
  intro ts
  induction ts with
  | nil => exact fun _ => ⟨fun hu => (by cases hu), fun _ => rfl⟩
  | cons t ts ih =>
    intro a h
    obtain ⟨hin, hout⟩ := ih (h.rest .dlt)
    have hno := (List.nodup_cons.mp h.nodup).1
    have hoth : Others t a (a.release t .dlt) := .release .dlt h.settled.nodup
    by_cases hut : u = t
    · subst hut
      refine ⟨fun _ => ?_, fun hu => absurd (by simp) hu⟩
      rw [List.foldl_cons, hout hno, release_tcb_self]
    · rw [hoth.tcb u hut] at hin hout
      refine ⟨fun hu => hin ?_, fun hu => hout fun hm => hu (by simp [hm])⟩
      exact (List.mem_cons.mp hu).resolve_left hut

/-- Those of priority `p` that are not suspended join its ready line in the order they wait in. -/
theorem Queued.foldl_ready (p : Int) : ∀ {ts : List (TskIx cfg)} {a : Model cfg}, Queued o ts a →
    (ts.foldl (fun a t => a.release t .dlt) a).queue (.ready p) =
      a.queue (.ready p) ++ ts.filter fun t =>
        decide ((a.core.tcb t).state = .wai ∧ (a.core.tcb t).tskpri = p) := by
  intro ts
  induction ts with
  | nil => exact fun _ => (List.append_nil _).symm
  | cons t ts ih =>
    intro a h
    have hno := (List.nodup_cons.mp h.nodup).1
    have hoth : Others t a (a.release t .dlt) := .release .dlt h.settled.nodup
    have hsame : ∀ u ∈ ts, (a.release t .dlt).core.tcb u = a.core.tcb u :=
      fun u hu => hoth.tcb u fun he => hno (he ▸ hu)
    have hfilter : (ts.filter fun u => decide (((a.release t .dlt).core.tcb u).state = .wai ∧
        ((a.release t .dlt).core.tcb u).tskpri = p)) =
        ts.filter fun u => decide ((a.core.tcb u).state = .wai ∧ (a.core.tcb u).tskpri = p) :=
      List.filter_congr fun u hu => by rw [hsame u hu]
    rw [List.foldl_cons, ih (h.rest .dlt), release_ready, hfilter, List.append_assoc]
    congr 1
    by_cases hp : (a.core.tcb t).state = .wai ∧ (a.core.tcb t).tskpri = p
    · rw [if_pos hp, List.filter_cons_of_pos (by simpa using hp)]
      rfl
    · rw [if_neg hp, List.filter_cons_of_neg (by simpa using hp)]
      rfl

/-- They leave the timer queue. -/
theorem foldl_timer : ∀ (ts : List (TskIx cfg)) (a : Model cfg), (a.queue .timer).Nodup →
    (ts.foldl (fun a t => a.release t .dlt) a).queue .timer =
      (a.queue .timer).filter fun t => decide (t ∉ ts) := by
  intro ts
  induction ts with
  | nil => exact fun a _ => by simp
  | cons t ts ih =>
    intro a hnd
    have herase : (a.release t .dlt).queue .timer = (a.queue .timer).filter (· ≠ t) := by
      rw [release_timer, hnd.erase_eq_filter]
      exact List.filter_congr fun u _ => Bool.eq_iff_iff.mpr (by simp)
    rw [List.foldl_cons, ih _ (by rw [herase]; exact hnd.filter _), herase, List.filter_filter]
    exact List.filter_congr fun u _ => Bool.eq_iff_iff.mpr (by simp [and_comm])

namespace Settled

theorem releaseAll_tcb_of_mem (h : Settled a) (hu : u ∈ a.queue (.waitq o)) :
    (a.releaseAll o).core.tcb u = released .dlt (a.core.tcb u) :=
  ((h.queued o).foldl_tcb u).1 hu

theorem releaseAll_tcb_of_not_mem (h : Settled a) (hu : u ∉ a.queue (.waitq o)) :
    (a.releaseAll o).core.tcb u = a.core.tcb u :=
  ((h.queued o).foldl_tcb u).2 hu

theorem releaseAll_ready (h : Settled a) (o : ObjId cfg) (p : Int) :
    (a.releaseAll o).queue (.ready p) = a.queue (.ready p) ++
      (a.queue (.waitq o)).filter fun t =>
        decide ((a.core.tcb t).state = .wai ∧ (a.core.tcb t).tskpri = p) :=
  (h.queued o).foldl_ready p

theorem releaseAll_timer (h : Settled a) (o : ObjId cfg) :
    (a.releaseAll o).queue .timer =
      (a.queue .timer).filter fun t => decide (t ∉ a.queue (.waitq o)) :=
  foldl_timer _ _ (h.nodup _)

end Settled

end Ittrium.Spec
