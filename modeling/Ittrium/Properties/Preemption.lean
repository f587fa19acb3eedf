import Ittrium.Kernel.Preemption
import Ittrium.Properties.Runs
import Ittrium.Spec.Existence

/-!
# Checks made before the critical section

Callers are interrupted between their checks and their critical section, and any other calls are
made then.

* `StillChecked p m` — the checks of a critical section that begins would pass again
* `checks_stay_valid` — **in runs of such moves the queues of semaphores and of free control blocks
  stay apart, nothing is created twice, and no deleted task becomes ready**
-/

namespace Ittrium

open Infra

variable {cfg : Config} {s s' : Kernel cfg} {p p' : System cfg} {x : Context cfg} {c : Call cfg}
  {k : CriticalSection cfg} {m : Move cfg} {t : TskIx cfg} {i : SemIx cfg}

/-! ## Critical sections and calls -/

namespace CriticalSection

/-- The checks of the state would pass again. -/
def StillPasses (s : Kernel cfg) : CriticalSection cfg → Prop
  | .creTsk t _ => (s.core.tcb t).state = .noexs
  | .chgPri t _ => (s.core.tcb t).state ≠ .noexs ∧ (s.core.tcb t).state ≠ .dmt
  | .creSem i _ => (s.core.semcb i).obj.state = .noexs
  | .waiSem i _ | .sigSem i | .isigSem i => (s.core.semcb i).obj.state ≠ .noexs

instance (s : Kernel cfg) (k : CriticalSection cfg) : Decidable (k.StillPasses s) := by
  cases k <;> (unfold StillPasses; infer_instance)

/-- What the checks have found out about the arguments. -/
def Prepared : CriticalSection cfg → Prop
  | .creTsk _ pk => pk.stk ≠ 0
  | .chgPri _ tskpri => ¬ ((tskpri < tminTpri ∨ tskpri > cfg.tmaxTpri) ∧ tskpri ≠ tpriIni)
  | .creSem _ pk => ¬ pk.sematr &&& (taTfifo ||| taTpri) ≠ pk.sematr ∧
      ¬ (cfg.tmaxMaxsem < pk.maxsem.toNat ∨ cfg.tmaxMaxsem < pk.isemcnt.toNat)
  | _ => True

/-- The call it is part of, with the ID of the control block. -/
def call : CriticalSection cfg → Call cfg
  | .creTsk t pk => .creTsk (t + 1) pk
  | .chgPri t tskpri => .chgPri (t + 1) tskpri
  | .creSem i pk => .creSem (i + 1) pk
  | .waiSem i tmout => .twaiSem (i + 1) tmout
  | .sigSem i => .sigSem (i + 1)
  | .isigSem i => .isigSem (i + 1)

/-- The semaphore a critical section signals. -/
def signals : CriticalSection cfg → Option (SemIx cfg)
  | .sigSem i | .isigSem i => some i
  | _ => none

theorem stillPasses_of_signals (k : CriticalSection cfg) (hk : k.signals = some i)
    (hs : k.StillPasses s) : (s.core.semcb i).obj.state ≠ .noexs := by
  cases k with
  | sigSem j => cases hk; exact hs
  | isigSem j => cases hk; exact hs
  | _ => cases hk

end CriticalSection

/-- The checks pass with `k` only if `P`. -/
abbrev PassesWith (P : CriticalSection cfg → Prop) (x : Exec (Checked cfg)) : Prop :=
  Ensures x fun v => ∀ k, v = .passed k → P k

theorem passesWith_returned {P : CriticalSection cfg → Prop} {r : Ret cfg} :
    PassesWith P (.ok (.returned s r)) :=
  .ok fun _ h => by cases h

theorem passesWith_passed {P : CriticalSection cfg → Prop} (h : P k) :
    PassesWith P (.ok (.passed k)) := by
  refine .ok ?_
  rintro _ ⟨⟩
  exact h

/-- What is known when the checks have passed. -/
theorem check_passed (c : Call cfg) (s : Kernel cfg) :
    PassesWith (fun k => k.Prepared ∧ k.StillPasses s) (check c s) := by
  -- a call without a preemption point never stops at one
  have hwhole : ∀ x : Outcome cfg,
      PassesWith (fun k => k.Prepared ∧ k.StillPasses s) (whole x) := by
    intro x
    exact .bind' fun _ _ => passesWith_returned
  have hwai : ∀ (semid : Int) (tmout : TMO), PassesWith (fun k => k.Prepared ∧ k.StillPasses s)
      (waiSemCheck semid tmout s) := by
    intro semid tmout
    refine .ite (fun _ => passesWith_returned) fun _ => .bind' fun i _ => ?_
    exact .ite (fun _ => passesWith_returned) fun hs => passesWith_passed ⟨trivial, hs⟩
  cases c with
  | creTsk tskid pk =>
    refine .ite (fun _ => passesWith_returned) fun _ => .bind' fun t _ => ?_
    refine .ite (fun _ => passesWith_returned) fun hs => ?_
    exact .ite (fun _ => passesWith_returned) fun hk => passesWith_passed ⟨hk, not_not.mp hs⟩
  | chgPri tskid tskpri =>
    refine .ite (fun _ => passesWith_returned) fun _ => ?_
    refine .ite (fun _ => passesWith_returned) fun hp => .bind' fun t _ => ?_
    refine .ite (fun _ => passesWith_returned) fun hs => ?_
    exact .ite (fun _ => passesWith_returned) fun hd => passesWith_passed ⟨hp, hs, hd⟩
  | creSem semid pk =>
    refine .ite (fun _ => passesWith_returned) fun _ => ?_
    refine .ite (fun _ => passesWith_returned) fun ha => ?_
    refine .ite (fun _ => passesWith_returned) fun hp => .bind' fun i _ => ?_
    exact .ite (fun _ => passesWith_returned) fun hs => passesWith_passed ⟨⟨ha, hp⟩, not_not.mp hs⟩
  | waiSem semid => exact hwai semid tmoFevr
  | twaiSem semid tmout => exact hwai semid tmout
  | polSem semid => exact hwai semid tmoPol
  | sigSem semid =>
    refine .ite (fun _ => passesWith_returned) fun _ => .bind' fun i _ => ?_
    exact .ite (fun _ => passesWith_returned) fun hs => passesWith_passed ⟨trivial, hs⟩
  | isigSem semid =>
    refine .ite (fun _ => passesWith_returned) fun _ => .bind' fun i _ => ?_
    exact .ite (fun _ => passesWith_returned) fun hs => passesWith_passed ⟨trivial, hs⟩
  | _ => exact hwhole _

/-- The ID of a control block is that of no error. -/
theorem getTcb_id (t : TskIx cfg) : getTcb ((t : Int) + 1) = .ok t := entryOf_id t

theorem getSemcb_id (i : SemIx cfg) :
    badSemid cfg ((i : Int) + 1) = false ∧ getSemcb ((i : Int) + 1) = .ok i :=
  ⟨Spec.badSemid_of_ok (entryOf_id i), entryOf_id i⟩

/-- If they pass again, the call made now would come to the same critical section. -/
theorem check_call (hk : k.Prepared) (hs : k.StillPasses s) : check k.call s = .ok (.passed k) := by
  cases k with
  | creTsk t pk =>
    have ht := t.isLt
    have hid : ¬ ((t : Int) + 1 > cfg.tmaxTskid + cfg.trsvTskid ∨ (t : Int) + 1 < 1) := by
      unfold Config.tnumTskid at ht
      omega
    show creTskCheck _ pk s = _
    unfold creTskCheck
    rw [if_neg hid, getTcb_id]
    show (if (s.core.tcb t).state ≠ .noexs then _ else if pk.stk = 0 then _ else _) = _
    have hs : (s.core.tcb t).state = .noexs := hs
    rw [if_neg (not_not.mpr hs), if_neg hk]
  | chgPri t tskpri =>
    have ht := t.isLt
    have hid : badTskid ((t : Int) + 1) s = false := by
      unfold badTskid tskSelf
      unfold Config.tnumTskid at ht
      simp only [Bool.or_eq_false_iff, decide_eq_false_iff_not, Bool.and_eq_false_iff]
      omega
    have hself : getTcbSelf ((t : Int) + 1) s = .ok t := by
      unfold getTcbSelf tskSelf
      rw [if_neg (by omega), getTcb_id]
    show chgPriCheck _ tskpri s = _
    unfold chgPriCheck
    rw [hid, if_neg (by simp), if_neg hk, hself]
    show (if (s.core.tcb t).state = .noexs then _ else if (s.core.tcb t).state = .dmt then _
      else _) = _
    rw [if_neg hs.1, if_neg hs.2]
  | creSem i pk =>
    show creSemCheck _ pk s = _
    unfold creSemCheck
    rw [(getSemcb_id i).1, (getSemcb_id i).2, if_neg (by simp), if_neg hk.1, if_neg hk.2]
    exact if_neg (not_not.mpr hs)
  | waiSem i tmout =>
    show waiSemCheck _ tmout s = _
    unfold waiSemCheck
    rw [(getSemcb_id i).1, (getSemcb_id i).2, if_neg (by simp)]
    exact if_neg hs
  | sigSem i =>
    show sigSemCheck _ s = _
    unfold sigSemCheck
    rw [(getSemcb_id i).1, (getSemcb_id i).2, if_neg (by simp)]
    exact if_neg hs
  | isigSem i =>
    show isigSemCheck _ s = _
    unfold isigSemCheck
    rw [(getSemcb_id i).1, (getSemcb_id i).2, if_neg (by simp)]
    exact if_neg hs

/-- **A critical section whose checks would pass again is a whole call.** -/
theorem run_eq_exec (hk : k.Prepared) (hs : k.StillPasses s) : k.run s = exec k.call s := by
  rw [exec_eq_check, check_call hk hs]
  rfl

/-! ## Runs -/

/-- The call a move completes if it returns or blocks. -/
def completes (p : System cfg) : Move cfg → Option (Call cfg)
  | .call _ c =>
    match check c p.kernel with
    | .ok (.passed _) => none
    | _ => some c
  | .resume x => (p.pending x).map CriticalSection.call

/-- The kernel does what it is meant to in the call that is completed. -/
def SoundMove (p : System cfg) (m : Move cfg) : Prop :=
  ∀ c ∈ completes p m, SoundCall p.kernel c

/-- The checks of a critical section that begins would pass again. -/
def StillChecked (p : System cfg) : Move cfg → Prop
  | .call _ _ => True
  | .resume x => ∀ k ∈ p.pending x, k.StillPasses p.kernel

instance (p : System cfg) (m : Move cfg) : Decidable (SoundMove p m) := by
  unfold SoundMove
  infer_instance

instance (p : System cfg) (m : Move cfg) : Decidable (StillChecked p m) := by
  cases m <;> (unfold StillChecked; infer_instance)

/-- Runs of moves that meet `C`. -/
abbrev SystemRun (C : System cfg → Move cfg → Prop) :
    List (Event (System cfg) (Move cfg × Option (Ret cfg))) → System cfg → Prop :=
  Run (∃ s, · = System.boot s) fun p l p' => C p l.1 ∧ p.step l.1 = some (p', l.2)

/-- A kernel in order, and callers who have made their checks. -/
structure SystemInv (p : System cfg) : Prop where
  models : ∃ a, Models p.kernel a
  prepared : ∀ x k, p.pending x = some k → k.Prepared

theorem settle_pending {q : Context cfg → Option (CriticalSection cfg)}
    (h : (System.settle q s).pending x = some k) : q x = some k := by
  cases x with
  | task t =>
    unfold System.settle at h
    dsimp only at h
    split at h
    · cases h
    · exact h
  | handler n => exact h

/-- **A move makes one call, or leaves the kernel as it is.** -/
theorem SystemInv.move {r : Option (Ret cfg)} (h : SystemInv p) (hc : StillChecked p m)
    (hs : p.step m = some (p', r)) :
    (∀ x k, p'.pending x = some k → k.Prepared) ∧
    ((completes p m = none ∧ p'.kernel = p.kernel) ∨
      ∃ c r', completes p m = some c ∧ r = some r' ∧ exec c p.kernel = .ok (p'.kernel, r')) := by
  cases m with
  | call x c =>
    unfold System.step completes at *
    dsimp only at hs ⊢
    split at hs
    -- the call is over, or is interrupted between its checks and its critical section
    · split at hs
      · next s' r' hx =>
        cases hs
        refine ⟨fun y k hy => h.prepared y k (settle_pending hy), Or.inr ⟨c, r', ?_, rfl, ?_⟩⟩
        · rw [hx]
        · rw [exec_eq_check, hx]
          rfl
      · next k hx =>
        cases hs
        refine ⟨fun y k' hy => ?_, Or.inl ⟨by rw [hx], rfl⟩⟩
        dsimp only at hy
        by_cases hyx : y = x
        · rw [hyx, Function.update_self] at hy
          cases hy
          exact (check_passed c p.kernel _ hx k rfl).1
        · rw [Function.update_of_ne hyx] at hy
          exact h.prepared y k' hy
      · cases hs
    · cases hs
  | resume x =>
    unfold System.step completes at *
    dsimp only at hs ⊢
    split at hs
    · split at hs
      · next k hk =>
        split at hs
        · next s' r' hx =>
          cases hs
          refine ⟨fun y k' hy => ?_, Or.inr ⟨k.call, r', by rw [hk]; rfl, rfl, ?_⟩⟩
          · have hy := settle_pending hy
            by_cases hyx : y = x
            · rw [hyx, Function.update_self] at hy
              cases hy
            · rw [Function.update_of_ne hyx] at hy
              exact h.prepared y k' hy
          -- the checks would pass again, so the rest is a whole call made now
          · rw [← run_eq_exec (h.prepared x k hk) (hc k hk)]
            exact hx
        · cases hs
      · cases hs
    · cases hs

/-- A step keeps the kernel in order. -/
theorem SystemInv.step {r : Option (Ret cfg)} (h : SystemInv p) (hsound : SoundMove p m)
    (hc : StillChecked p m) (hs : p.step m = some (p', r)) : SystemInv p' := by
  obtain ⟨hprep, ⟨-, hk⟩ | ⟨c, r', hcomp, -, he⟩⟩ := h.move hc hs
  · exact ⟨hk ▸ h.models, hprep⟩
  · obtain ⟨a, ha⟩ := h.models
    obtain ⟨a', -, ha'⟩ := ha.step (hsound c hcomp) he
    exact ⟨⟨a', ha'⟩, hprep⟩

/-- The calls are sound, and their checks would pass again when their critical sections begin. -/
def Careful (p : System cfg) (m : Move cfg) : Prop := SoundMove p m ∧ StillChecked p m

instance (p : System cfg) (m : Move cfg) : Decidable (Careful p m) := by
  unfold Careful
  infer_instance

abbrev SystemEvent (cfg : Config) := Event (System cfg) (Move cfg × Option (Ret cfg))

theorem SystemRun.inv {tr : List (SystemEvent cfg)} (h : SystemRun Careful tr p) : SystemInv p := by
  refine Run.invariant (I := SystemInv) ?_ (fun p l p' hp hs => ?_) h
  · rintro _ ⟨s, rfl⟩
    exact ⟨⟨_, .boot s⟩, fun x k hk => by cases hk⟩
  · exact hp.step hs.1.1 hs.1.2 hs.2

/-! ## Rings -/

section

variable {a : Spec.Model cfg}

/-- The free list of semaphores. -/
theorem Models.reaches_freeSemcb (h : Models s a) (y : Node cfg) :
    s.links.Reaches .freeSemcb y ↔
      y = .freeSemcb ∨ ∃ i, y = .waitq (.sem i) ∧ (s.core.semcb i).obj.state = .noexs := by
  rw [h.ring_freeSemcb.reaches_iff, List.mem_cons, List.mem_map, h.refines.core]
  constructor
  · rintro (hy | ⟨i, hi, rfl⟩)
    · exact Or.inl hy
    · exact Or.inr ⟨i, rfl, (h.inv.mem_freeSem i).mp hi⟩
  · rintro (hy | ⟨i, rfl, hi⟩)
    · exact Or.inl hy
    · exact Or.inr ⟨i, (h.inv.mem_freeSem i).mpr hi, rfl⟩

/-- A task that does not exist is on no ready line. -/
theorem Models.ready_noexs (h : Models s a) (ht : (s.core.tcb t).state = .noexs) {q : Int}
    (hq : Spec.LinePri cfg q) : ¬ s.links.Reaches (.priq q) (.qnode t) := by
  intro hr
  have hring : Ring s.links (.priq q) ((a.queue (.ready q)).map .qnode) :=
    h.refines.ring (l := .ready q) ⟨hq, id⟩
  rw [hring.reaches_iff, List.mem_cons, List.mem_map] at hr
  obtain hr | ⟨u, hu, hut⟩ := hr
  · cases hr
  · cases hut
    have hst := (((h.inv.toSettled.task t).ready q).mp hu).1
    rw [h.refines.core, hst] at ht
    cases ht

/-- The first node in the queue of an existing semaphore is a task. -/
theorem Models.first_waiting (h : Models s a) (hi : (s.core.semcb i).obj.state ≠ .noexs) :
    kqueueEmpty (.waitq (.sem i)) s.links = true ∨
      ∃ t, s.links.next (.waitq (.sem i)) = .qnode t := by
  have hring := h.ring_waitq (o := .sem i) hi
  rw [kqueueEmpty, decide_eq_true_iff, hring.next_head]
  cases a.queue (.waitq (.sem i)) with
  | nil => exact Or.inl rfl
  | cons t ts => exact Or.inr ⟨t, rfl⟩

end

/-! ## The checks stay valid -/

/-- The event completes the call `c` with result `r`. -/
def Completed (c : Call cfg) (r : Ret cfg) (e : SystemEvent cfg) : Prop :=
  completes e.pre e.label.1 = some c ∧ e.label.2 = some r

def TskMade (t : TskIx cfg) (e : SystemEvent cfg) : Prop :=
  ∃ pk c r, Spec.CreatesTsk (t + 1) pk c r ∧ Completed c r e

def TskDeleted (t : TskIx cfg) (e : SystemEvent cfg) : Prop :=
  ∃ tskid, getTcb tskid = .ok t ∧ Completed (.delTsk tskid) (.er .ok) e

def SemMade (i : SemIx cfg) (e : SystemEvent cfg) : Prop :=
  ∃ pk c r, Spec.CreatesSem (i + 1) pk c r ∧ Completed c r e

def SemDeleted (i : SemIx cfg) (e : SystemEvent cfg) : Prop :=
  ∃ semid, getSemcb semid = .ok i ∧ Completed (.delSem semid) (.er .ok) e

/-- What is to hold whatever happens between checks and critical sections. -/
structure Intact (tr : List (SystemEvent cfg)) (p : System cfg) : Prop where
  /-- No task is in the queue of a semaphore that does not exist. -/
  waitq : ∀ i t, (p.kernel.core.semcb i).obj.state = .noexs →
    ¬ p.kernel.links.Reaches (.waitq (.sem i)) (.qnode t)
  /-- The semaphores that do not exist are those of `free_semcb`. -/
  freeSem : ∀ x, p.kernel.links.Reaches .freeSemcb x ↔
    x = .freeSemcb ∨ ∃ i, x = .waitq (.sem i) ∧ (p.kernel.core.semcb i).obj.state = .noexs
  /-- A signal that goes on finds a task, or nobody. -/
  signal : ∀ x i, (p.pending x).bind CriticalSection.signals = some i →
    StillChecked p (.resume x) → kqueueEmpty (.waitq (.sem i)) p.kernel.links = true ∨
      ∃ t, p.kernel.links.next (.waitq (.sem i)) = .qnode t
  tskOnce : ∀ t, ¬ Run.Twice (TskMade t) (TskDeleted t) tr
  semOnce : ∀ i, ¬ Run.Twice (SemMade i) (SemDeleted i) tr
  /-- No deleted task is on a ready line. -/
  ready : ∀ t q, (p.kernel.core.tcb t).state = .noexs → Spec.LinePri cfg q →
    ¬ p.kernel.links.Reaches (.priq q) (.qnode t)

/-- A call that is completed is made over lists as well. -/
theorem SystemRun.completed {tr : List (SystemEvent cfg)} {e : SystemEvent cfg}
    (h : SystemRun Careful tr e.pre) (hc : Careful e.pre e.label.1)
    (hs : e.pre.step e.label.1 = some (e.post, e.label.2)) :
    (e.post.kernel = e.pre.kernel ∧ ∀ c r, ¬ Completed c r e) ∨
    ∃ a a' c r, Moves SoundCall e.pre.kernel a c r e.post.kernel a' ∧
      ∀ c' r', Completed c' r' e ↔ c' = c ∧ r' = r := by
  have hinv := h.inv
  obtain ⟨a, ha⟩ := hinv.models
  obtain ⟨-, ⟨hnone, hk⟩ | ⟨c, r, hcomp, hr, he⟩⟩ := hinv.move hc.2 hs
  · refine Or.inl ⟨hk, fun c r hcr => ?_⟩
    rw [hcr.1] at hnone
    cases hnone
  · have hsound := hc.1 c hcomp
    obtain ⟨a', ha'⟩ := ha.moves (fun _ _ h => h) (l := (c, r)) ⟨hsound, he⟩
    refine Or.inr ⟨a, a', c, r, ha', fun c' r' => ?_⟩
    unfold Completed
    rw [hcomp, hr]
    simp only [Option.some.injEq]
    constructor <;> rintro ⟨rfl, rfl⟩ <;> exact ⟨rfl, rfl⟩

theorem SystemRun.tskOnce {tr : List (SystemEvent cfg)} (h : SystemRun Careful tr p)
    (t : TskIx cfg) : ¬ Run.Twice (TskMade t) (TskDeleted t) tr := by
  refine Run.not_twice (T := fun p => (p.kernel.core.tcb t).state ≠ .noexs) ?_ ?_ h
  · rintro tr s l s' hrun ⟨hc, hs⟩ ⟨pk, c, r, hcr, hcomp⟩
    obtain ⟨-, hno⟩ | ⟨a, a', c', r', hm, hiff⟩ :=
      SystemRun.completed (e := ⟨s, l, s'⟩) hrun hc hs
    · exact absurd hcomp (hno c r)
    · obtain ⟨rfl, rfl⟩ := (hiff c r).mp hcomp
      have hex := (Spec.exec_createsTsk hcr hm.spec).exists (getTcb_id t)
      rw [← hm.pre.refines.core, ← hm.post.refines.core] at hex
      exact ⟨not_not.mpr hex.1, hex.2⟩
  · rintro tr s l s' hrun ⟨hc, hs⟩ ht hd
    obtain ⟨hk, -⟩ | ⟨a, a', c, r, hm, hiff⟩ := SystemRun.completed (e := ⟨s, l, s'⟩) hrun hc hs
    · rw [show s'.kernel = s.kernel from hk]
      exact ht
    · rw [hm.pre.refines.core] at ht
      rw [hm.post.refines.core]
      refine Spec.exec_tsk_lasts hm.pre.inv hm.sound hm.spec ht ?_
      rintro tskid rfl hid rfl
      exact hd ⟨tskid, hid, (hiff _ _).mpr ⟨rfl, rfl⟩⟩

theorem SystemRun.semOnce {tr : List (SystemEvent cfg)} (h : SystemRun Careful tr p)
    (i : SemIx cfg) : ¬ Run.Twice (SemMade i) (SemDeleted i) tr := by
  refine Run.not_twice (T := fun p => (p.kernel.core.semcb i).obj.state ≠ .noexs) ?_ ?_ h
  · rintro tr s l s' hrun ⟨hc, hs⟩ ⟨pk, c, r, hcr, hcomp⟩
    obtain ⟨-, hno⟩ | ⟨a, a', c', r', hm, hiff⟩ :=
      SystemRun.completed (e := ⟨s, l, s'⟩) hrun hc hs
    · exact absurd hcomp (hno c r)
    · obtain ⟨rfl, rfl⟩ := (hiff c r).mp hcomp
      have hex := (Spec.exec_createsSem hcr hm.spec).exists (getSemcb_id i).2
      rw [← hm.pre.refines.core, ← hm.post.refines.core] at hex
      exact ⟨not_not.mpr hex.1, hex.2⟩
  · rintro tr s l s' hrun ⟨hc, hs⟩ hi hd
    obtain ⟨hk, -⟩ | ⟨a, a', c, r, hm, hiff⟩ := SystemRun.completed (e := ⟨s, l, s'⟩) hrun hc hs
    · rw [show s'.kernel = s.kernel from hk]
      exact hi
    · rw [hm.pre.refines.core] at hi
      rw [hm.post.refines.core]
      refine Spec.exec_sem_lasts hm.pre.inv hm.sound hm.spec hi ?_
      rintro semid rfl hid rfl
      exact hd ⟨semid, hid, (hiff _ _).mpr ⟨rfl, rfl⟩⟩

/-- **As long as the checks would pass again when the critical sections begin, all is in order,
whatever calls are made in between.** -/
theorem checks_stay_valid {tr : List (SystemEvent cfg)} (h : SystemRun Careful tr p) :
    Intact tr p := by
  have hinv := h.inv
  obtain ⟨a, ha⟩ := hinv.models
  exact
    { waitq := fun i t hi => ha.waitq_noexs (o := .sem i) hi t
      freeSem := ha.reaches_freeSemcb
      signal := fun x i hi hc => by
        obtain ⟨k, hk, hki⟩ := Option.bind_eq_some_iff.mp hi
        exact ha.first_waiting (k.stillPasses_of_signals hki (hc k hk))
      tskOnce := h.tskOnce
      semOnce := h.semOnce
      ready := fun t q ht hq => ha.ready_noexs ht hq }

/-! ## Runs of given moves -/

/-- What can be seen at the end of the moves is true of a run. -/
theorem exists_systemRun {C : System cfg → Move cfg → Prop} [∀ p m, Decidable (C p m)]
    (ms : List (Move cfg)) (s : Kernel cfg)
    (Q : List (SystemEvent cfg) → System cfg → Prop) [∀ tr p, Decidable (Q tr p)]
    (h : ((perform System.step C ms [] (System.boot s)).map fun v => decide (Q v.1 v.2)) =
      some true) : ∃ tr p, SystemRun C tr p ∧ Q tr p :=
  exists_perform ⟨s, rfl⟩ ms Q h

/-- A semaphore and three tasks. The second task, the most urgent one, sleeps. -/
def startSystem : List (Move smallConfig) :=
  [.call (.handler 0) (.creSem 1 ⟨0, 0, 1⟩), .resume (.handler 0),
    .call (.handler 0) (.creTsk 1 (taskPk 2)), .resume (.handler 0),
    .call (.handler 0) (.actTsk 1),
    .call (.handler 0) (.creTsk 2 (taskPk 1)), .resume (.handler 0),
    .call (.handler 0) (.actTsk 2), .call (.task 1) .slpTsk,
    .call (.handler 0) (.creTsk 3 (taskPk 3)), .resume (.handler 0), .call (.handler 0) (.actTsk 3)]

/-- The first task begins the call `c`, a handler wakes up the second one, which makes the call `d`
and sleeps again. -/
def interruptedBy (c d : Call smallConfig) : List (Move smallConfig) :=
  startSystem ++ [.call (.task 0) c, .call (.handler 0) (.iwupTsk 2), .call (.handler 0) .dispatch,
    .call (.task 1) d, .call (.task 1) .slpTsk]

/-- A task waits, after another one has looked at the semaphore. -/
theorem checks_stay_valid_wait : ∃ (tr : List (SystemEvent smallConfig)) (p : System smallConfig),
    SystemRun Careful tr p ∧ Intact tr p ∧ (p.kernel.core.tcb 0).state = .wai := by
  obtain ⟨tr, p, h, hp⟩ := exists_systemRun (C := Careful)
    (interruptedBy (.waiSem 1) (.refSem 1) ++ [.resume (.task 0)]) zeroed
    (fun _ p => (p.kernel.core.tcb 0).state = .wai) (by decide +kernel)
  exact ⟨tr, p, h, checks_stay_valid h, hp⟩

/-- A semaphore is deleted between check and critical section: the task that waits is put into the
queue of a semaphore that does not exist, and the task that signals takes the next free control block
for a waiting task. A task is deleted there: `chg_pri` puts it on a ready line. -/
theorem checks_go_stale :
    (∃ (tr : List (SystemEvent smallConfig)) (p : System smallConfig), SystemRun SoundMove tr p ∧
      (p.kernel.core.semcb 0).obj.state = .noexs ∧
      p.kernel.links.Reaches (.waitq (.sem 0)) (.qnode 0)) ∧
    (∃ (tr : List (SystemEvent smallConfig)) (p : System smallConfig), SystemRun SoundMove tr p ∧
      (p.pending (.task 0)).bind CriticalSection.signals = some 0 ∧ p.kernel.runtsk = .qnode 0 ∧
      p.kernel.links.next (.waitq (.sem 0)) = .freeSemcb) ∧
    ∃ (tr : List (SystemEvent smallConfig)) (p : System smallConfig), SystemRun SoundMove tr p ∧
      (p.kernel.core.tcb 2).state = .noexs ∧ p.kernel.links.Reaches (.priq 3) (.qnode 2) := by
  refine ⟨?_, ?_, ?_⟩
  · obtain ⟨tr, p, h, hs, hp⟩ := exists_systemRun (C := SoundMove)
      (interruptedBy (.waiSem 1) (.delSem 1) ++ [.resume (.task 0)]) zeroed
      (fun _ p => (p.kernel.core.semcb 0).obj.state = .noexs ∧
        p.kernel.links.prev (.waitq (.sem 0)) = .qnode 0) (by decide +kernel)
    exact ⟨tr, p, h, hs, 1, Or.inr hp⟩
  · exact exists_systemRun (C := SoundMove) (interruptedBy (.sigSem 1) (.delSem 1)) zeroed
      (fun _ p => (p.pending (.task 0)).bind CriticalSection.signals = some 0 ∧
        p.kernel.runtsk = .qnode 0 ∧ p.kernel.links.next (.waitq (.sem 0)) = .freeSemcb)
      (by decide +kernel)
  · obtain ⟨tr, p, h, hs, hp⟩ := exists_systemRun (C := SoundMove)
      (interruptedBy (.chgPri 3 4) (.delTsk 3) ++ [.resume (.task 0)]) zeroed
      (fun _ p => (p.kernel.core.tcb 2).state = .noexs ∧
        p.kernel.links.next (.priq 3) = .qnode 2) (by decide +kernel)
    exact ⟨tr, p, h, hs, 1, Or.inl hp⟩

end Ittrium
