import Ittrium.Properties.Runs
import Ittrium.Spec.Timers

/-!
# Timeouts

* `waited t tr` — the call in which `t` waits, and the ticks since then
* `Call.ticks` — how many ticks a wait lasts if nothing else ends it
* `TimeInv` — **the timer of a waiting task holds what is left of them**
* `timeouts_exact` — **a timeout is neither early nor late, and happens once**
-/

namespace Ittrium

open Infra

variable {cfg : Config} {t u : TskIx cfg} {tr : Trace cfg} {s s' : Kernel cfg}
  {a a' : Spec.Model cfg} {c c' : Call cfg} {r : Ret cfg} {n N : Nat} {k : TMO}

/-! ## How long a wait lasts -/

/-- The tick that ends a wait with this timeout. A count of zero is first met when it wraps. -/
def expiry (k : TMO) : Option Nat :=
  if k = tmoFevr then none
  else some (if k = 0 then 2 ^ 32 else (k.signExtend 32).toNat)

/-- The timeout a call hands to `make_wait`. -/
def Call.timeout (c : Call cfg) : Option TMO := (Spec.Call.wait c).map Prod.snd

/-- The tick that ends a wait in the call, if nothing else does. -/
def Call.ticks (c : Call cfg) : Option Nat := (Call.timeout c).bind expiry

theorem signExtend_toNat_of_pos (h : 1 ≤ k.toInt) : (k.signExtend 32).toNat = k.toInt.toNat := by
  have hk : (k.signExtend 32).toInt = k.toInt := BitVec.toInt_signExtend_of_le (by decide)
  have hlt := BitVec.toInt_lt (x := k)
  rw [BitVec.toInt_eq_toNat_cond] at hk
  split at hk <;> omega

theorem signExtend_eq_zero : k.signExtend 32 = 0 ↔ k = 0 := by
  rw [← BitVec.toInt_inj, ← BitVec.toInt_inj, BitVec.toInt_signExtend_of_le (by decide)]
  rfl

theorem expiry_of_pos (h : 1 ≤ k.toInt) : expiry k = some k.toInt.toNat := by
  have h₁ : k ≠ tmoFevr := by
    rintro rfl
    revert h
    decide
  have h₂ : k ≠ 0 := by
    rintro rfl
    revert h
    decide
  rw [expiry, if_neg h₁, if_neg h₂, signExtend_toNat_of_pos h]

/-- The tick that ends a wait is the number the counter starts with, up to a turn of it. -/
theorem count_of_expiry (h : expiry k = some N) :
    0 < N ∧ N ≤ 2 ^ 32 ∧ k ≠ tmoFevr ∧ k.signExtend 32 = BitVec.ofNat 32 N := by
  unfold expiry at h
  split at h
  · cases h
  · next hf =>
    obtain rfl := Option.some.inj h
    have hlt := (k.signExtend 32).isLt
    split
    · next h0 =>
      subst h0
      exact ⟨by decide, le_refl _, hf, by decide⟩
    · next h0 =>
      have hne : (k.signExtend 32).toNat ≠ 0 := fun he =>
        h0 (signExtend_eq_zero.mp (BitVec.eq_of_toNat_eq he))
      exact ⟨by omega, by omega, hf, by simp⟩

theorem expiry_eq_none : expiry k = none ↔ k = tmoFevr := by
  unfold expiry
  split <;> simp_all

/-! ## What has happened -/

/-- The call in which `t` waits, and the number of ticks since it began to. -/
def waited (t : TskIx cfg) : Trace cfg → Option (Call cfg × Nat)
  | [] => none
  | e :: tr =>
    if (e.post.core.tcb t).state.waiting then
      if e.label.2 = .blocked ∧ e.pre.runtsk = .qnode t then some (e.label.1, 0)
      else (waited t tr).map fun w =>
        match e.label.1 with
        | .timerHandler => (w.1, w.2 + 1)
        | _ => w
    else none

/-- The timer of a task that has waited `n` ticks in the call `c`. -/
structure Clocked (c : Call cfg) (n : Nat) (t : TskIx cfg) (a : Spec.Model cfg) : Prop where
  waiting : (a.core.tcb t).state.waiting
  ercd : (a.core.tcb t).ercd = Spec.Call.waitErcd c
  /-- What is left is counted down. -/
  count : ∀ N, Call.ticks c = some N →
    t ∈ a.queue .timer ∧ n < N ∧ (a.timers t).count = BitVec.ofNat 32 (N - n)
  forever : Call.ticks c = none → t ∉ a.queue .timer

/-- **The timers against the past.** -/
structure TimeInv (tr : Trace cfg) (a : Spec.Model cfg) : Prop where
  idle : ∀ t, waited t tr = none → ¬ (a.core.tcb t).state.waiting
  clocked : ∀ t c n, waited t tr = some (c, n) → Clocked c n t a

/-! ## Steps -/

theorem ticks_le (h : Call.ticks c = some N) : 0 < N ∧ N ≤ 2 ^ 32 := by
  obtain ⟨k, -, hk⟩ := Option.bind_eq_some_iff.mp h
  exact ⟨(count_of_expiry hk).1, (count_of_expiry hk).2.1⟩

/-- The counter reaches zero with the last tick. -/
theorem count_last (h : n < N) (hN : N ≤ 2 ^ 32) :
    BitVec.ofNat 32 (N - n) - 1 = 0 ↔ n + 1 = N := by
  rw [← BitVec.toNat_inj, BitVec.toNat_sub]
  simp only [BitVec.toNat_ofNat, BitVec.ofNat_eq_ofNat]
  omega

theorem count_next (h : n < N) : BitVec.ofNat 32 (N - n) - 1 = BitVec.ofNat 32 (N - (n + 1)) := by
  apply BitVec.eq_of_toNat_eq
  rw [BitVec.toNat_sub]
  simp only [BitVec.toNat_ofNat, BitVec.ofNat_eq_ofNat]
  omega

/-- The timer of a task that begins to wait. -/
theorem Clocked.start {o : Option (ObjId cfg)} {b : Spec.Model cfg}
    (hw : Spec.Call.wait c = some (o, k)) (hb : Spec.Blocked t o k a b)
    (he : Spec.Started (Spec.Call.waitErcd c) k t b.dispatch) : Clocked c 0 t b.dispatch := by
  have hticks : Call.ticks c = expiry k := by rw [Call.ticks, Call.timeout, hw]; rfl
  have hwait : (b.dispatch.core.tcb t).state.waiting := by
    show (b.core.tcb t).state.waiting = true
    rw [hb.wait]
    rfl
  refine ⟨hwait, he.ercd, fun N hN => ?_, fun hN => ?_⟩ <;> rw [hticks] at hN
  · obtain ⟨h₁, -, h₂, h₃⟩ := count_of_expiry hN
    exact ⟨hb.timer.mpr h₂, h₁, (he.count h₂).trans h₃⟩
  · exact fun hm => hb.timer.mp hm (expiry_eq_none.mp hN)

/-- Nothing that the timer depends on has changed. -/
theorem Clocked.same (h : Clocked c n t a) (hw : (a'.core.tcb t).state.waiting)
    (he : (a'.core.tcb t).ercd = (a.core.tcb t).ercd)
    (hq : t ∈ a'.queue .timer ↔ t ∈ a.queue .timer) (ht : a'.timers t = a.timers t) :
    Clocked c n t a' where
  waiting := hw
  ercd := he.trans h.ercd
  count := fun N hN => by
    rw [hq, ht]
    exact h.count N hN
  forever := fun hN => by
    rw [hq]
    exact h.forever hN

/-- A tick that ends the wait, because its time is up. -/
theorem Clocked.last (h : Clocked c n t a) (ha : Spec.Inv a) (hN : Call.ticks c = some (n + 1)) :
    (Spec.timerHandler a).core.tcb t = { a.core.tcb t with
      wtmeb := { a.timers t with count := 0 }
      tskwait := .none
      state := if (a.core.tcb t).state = .wai then .rdy else .sus } := by
  obtain ⟨hm, hlt, hcount⟩ := h.count _ hN
  rw [ha.toSettled.timerHandler_tcb, if_pos hm, ha.accountTcb_of_waiting h.waiting,
    Spec.tickTcb_last]
  · rfl
  · rw [show (a.core.tcb t).wtmeb.count = _ from hcount]
    exact (count_last hlt (ticks_le hN).2).mpr rfl

/-- A tick that does not end the wait. -/
theorem Clocked.next (h : Clocked c n t a) (ha : Spec.Inv a) (hN : Call.ticks c ≠ some (n + 1)) :
    (Spec.timerHandler a).core.tcb t = { a.core.tcb t with
      wtmeb := { a.timers t with
        count := (a.timers t).count - if Call.ticks c = none then 0 else 1 } } := by
  rw [ha.toSettled.timerHandler_tcb, ha.accountTcb_of_waiting h.waiting]
  cases hc : Call.ticks c with
  | none =>
    rw [if_neg (h.forever hc), if_pos rfl]
    simp only [Spec.Model.timers, BitVec.ofNat_eq_ofNat, BitVec.sub_zero]
  | some N =>
    obtain ⟨hm, hlt, hcount⟩ := h.count N hc
    rw [if_pos hm, if_neg (by simp), Spec.tickTcb_next]
    · rfl
    · rw [show (a.core.tcb t).wtmeb.count = _ from hcount, Ne, count_last hlt (ticks_le hc).2]
      exact fun he => hN (by rw [hc, he])

theorem Clocked.waiting_iff (h : Clocked c n t a) (ha : Spec.Inv a) :
    ((Spec.timerHandler a).core.tcb t).state.waiting ↔ Call.ticks c ≠ some (n + 1) := by
  constructor
  · intro hw hN
    rw [h.last ha hN] at hw
    dsimp only at hw
    split at hw <;> simp [Stat.waiting_iff] at hw
  · intro hN
    rw [h.next ha hN]
    exact h.waiting

/-- One more tick of the wait has passed. -/
theorem Clocked.tick (h : Clocked c n t a) (ha : Spec.Inv a)
    (hw : ((Spec.timerHandler a).core.tcb t).state.waiting) :
    Clocked c (n + 1) t (Spec.timerHandler a) := by
  have hN := (h.waiting_iff ha).mp hw
  obtain ⟨-, hsame, hq⟩ := (ha.toSettled.timerHandler ha.timerNesting).keep t hw
  refine ⟨hw, hsame.ercd.trans h.ercd, fun N hc => ?_, fun hc => by rw [hq]; exact h.forever hc⟩
  obtain ⟨hm, hlt, hcount⟩ := h.count N hc
  have hne : n + 1 ≠ N := fun he => hN (by rw [hc, he])
  refine ⟨hq.mpr hm, by omega, ?_⟩
  rw [Spec.Model.timers, h.next ha hN, if_neg (by rw [hc]; simp), ← count_next hlt, ← hcount]

/-- Who still waits has waited before. -/
theorem Moves.still {C : Kernel cfg → Call cfg → Prop} (hm : Moves C s a c r s' a')
    (hw : (a'.core.tcb t).state.waiting) (hn : ¬ (r = .blocked ∧ s.runtsk = .qnode t)) :
    (a.core.tcb t).state.waiting ∧ (a'.core.tcb t).ercd = (a.core.tcb t).ercd ∧
      (t ∈ a'.queue .timer ↔ t ∈ a.queue .timer) ∧
      (c ≠ .timerHandler → a'.timers t = a.timers t) := by
  have hcalm : r ≠ .blocked → Spec.Calm a a' → (a.core.tcb t).state.waiting ∧
      (a'.core.tcb t).ercd = (a.core.tcb t).ercd ∧ (t ∈ a'.queue .timer ↔ t ∈ a.queue .timer) ∧
      (c ≠ .timerHandler → a'.timers t = a.timers t) := fun hr hc => by
    obtain ⟨h₁, h₂, h₃⟩ := hc.keep t hw
    exact ⟨h₁, h₂.ercd, h₃, fun hc =>
      congrFun (Spec.exec_timers hm.pre.inv.toSettled hc hm.spec hr) t⟩
  cases Spec.exec_step hm.pre.inv hm.sound _ hm.spec with
  | steady hr hs => exact hcalm hr hs.toCalm
  | dispatch hr hc => exact hcalm hr hc.dispatch
  | @blocked v o' tmout b _ hrun hb =>
    have hne : t ≠ v := by
      rintro rfl
      refine hn ⟨rfl, ?_⟩
      rw [hm.pre.refines.runtsk, hrun, Refine.ptr_some]
    have htcb := hb.others.tcb t hne
    refine ⟨htcb ▸ hw, ?_, hb.others.mem t hne _, fun _ => ?_⟩
    · show (b.core.tcb t).ercd = _
      rw [htcb]
    · show (b.core.tcb t).wtmeb = _
      rw [htcb]
      rfl

/-- **Every step keeps the timers right.** -/
theorem TimeInv.step {C : Kernel cfg → Call cfg → Prop} (h : TimeInv tr a)
    (hm : Moves C s a c r s' a') : TimeInv (⟨s, (c, r), s'⟩ :: tr) a' := by
  have ha := hm.pre.inv
  refine ⟨fun t hn hw => ?_, fun t c₁ n hc => ?_⟩
  · -- a task that waits has a call it waits in
    rw [waited, hm.post.refines.core, if_pos hw] at hn
    split at hn
    · cases hn
    · next hnew =>
      exact h.idle t (Option.map_eq_none_iff.mp hn) (hm.still hw hnew).1
  · rw [waited, hm.post.refines.core] at hc
    split at hc
    · next hw =>
      split at hc
      · next hnew =>
        obtain ⟨rfl, hrun⟩ := hnew
        cases hc
        obtain ⟨v, o, k, b, hwait, hv, hb, rfl⟩ := Spec.exec_blocks ha hm.sound hm.spec
        obtain rfl : t = v := by
          have hrun : s.runtsk = .qnode t := hrun
          rw [hm.pre.refines.runtsk, hv, Refine.ptr_some] at hrun
          exact (Node.qnode.inj hrun).symm
        obtain ⟨-, v, hv', hst⟩ := Spec.exec_blocked hwait hm.spec
        obtain rfl : t = v := Option.some.inj (hv.symm.trans hv')
        exact .start hwait hb hst
      · next hnew =>
        obtain ⟨⟨c₀, n₀⟩, h₀, hcn⟩ := Option.map_eq_some_iff.mp hc
        have hold := h.clocked t c₀ n₀ h₀
        obtain ⟨-, he, hq, htim⟩ := hm.still hw hnew
        by_cases htick : c = .timerHandler
        · subst htick
          cases hcn
          obtain rfl : Spec.timerHandler a = a' := congrArg Prod.fst (Except.ok.inj hm.spec)
          exact hold.tick ha hw
        · have hcn : (c₀, n₀) = (c₁, n) := by
            revert hcn htick
            cases c <;> simp
          cases hcn
          exact hold.same hw he hq (htim htick)
    · cases hc

theorem RunOf.timeInv (h : RunOf SoundCall tr s) : ∃ a, Models s a ∧ TimeInv tr a := by
  refine RunOf.lift (fun _ _ h => h) (fun m => ⟨fun t _ hw => ?_, fun t c n h => by cases h⟩)
    (fun _ _ _ _ _ _ _ hm h => h.step hm) h
  rw [show ((Refine.initial m).core.tcb t).state = .noexs from Refine.boot_task m t] at hw
  cases hw

/-! ## Ticks -/

/-- The tick handler returns. -/
theorem Models.tick (h : Models s a) :
    ∃ s', StepOf SoundCall s (.timerHandler, .none) s' ∧
      Moves SoundCall s a .timerHandler .none s' (Spec.timerHandler a) := by
  obtain ⟨s', he, h'⟩ := h.exists_step (c := .timerHandler) trivial rfl
  exact ⟨s', ⟨trivial, he⟩, h, h', trivial, he, rfl, trivial⟩

/-- The time of a waiting task is up: its wait ends with `E_TMOUT`, all else is as before. -/
def Expires (tcb tcb' : TCB cfg) : Prop :=
  tcb.ercd = .tmout ∧
  tcb' = { tcb with
    wtmeb := { tcb.wtmeb with count := 0 }
    tskwait := .none
    state := if tcb.state = .wai then .rdy else .sus }

/-- One tick less is left. -/
def CountsDown (tcb tcb' : TCB cfg) : Prop :=
  tcb' = { tcb with wtmeb := { tcb.wtmeb with count := tcb.wtmeb.count - 1 } }

theorem TimeInv.waiting_iff (h : TimeInv tr a) (t : TskIx cfg) :
    (a.core.tcb t).state.waiting ↔ (waited t tr).isSome := by
  cases hw : waited t tr with
  | none => simpa using h.idle t hw
  | some w => simpa using (h.clocked t w.1 w.2 hw).waiting

/-- A tick leaves a task alone that does not wait. -/
theorem tick_of_idle (ha : Spec.Inv a) (hw : ¬ (a.core.tcb t).state.waiting) :
    (Spec.timerHandler a).core.tcb t = Spec.accountTcb a t := by
  rw [ha.toSettled.timerHandler_tcb, if_neg]
  exact fun hm => hw ((ha.task t).timer hm).1

theorem waitErcd_of_ne (hc : ∀ d, c ≠ .dlyTsk d) : Spec.Call.waitErcd c = .tmout := by
  cases c with
  | dlyTsk d => exact absurd rfl (hc d)
  | _ => rfl

/-- **A timeout `k` ends the wait at the `k`-th tick and at none before, with `E_TMOUT`. A tick
counts down every other timer once and touches no other task, and who has been released stays so,
with the result of its release, until it runs.** -/
theorem timeouts_exact (h : RunOf SoundCall tr s) :
    (∀ t, (s.core.tcb t).state.waiting ↔ (waited t tr).isSome) ∧
    (∃ s', StepOf SoundCall s (.timerHandler, .none) s' ∧
      (∀ t, waited t tr = none →
        s'.core.tcb t = { s.core.tcb t with runTicks := (s'.core.tcb t).runTicks }) ∧
      (∀ t c n, waited t tr = some (c, n) → Call.timeout c = some tmoFevr →
        s'.core.tcb t = s.core.tcb t) ∧
      ∀ t c n k, waited t tr = some (c, n) → (∀ d, c ≠ .dlyTsk d) → Call.timeout c = some k →
        1 ≤ k.toInt → (n : Int) < k.toInt ∧
          if (n : Int) + 1 = k.toInt then Expires (s.core.tcb t) (s'.core.tcb t)
          else CountsDown (s.core.tcb t) (s'.core.tcb t)) ∧
    ∀ t, ¬ (s.core.tcb t).state.waiting → s.runtsk ≠ .qnode t →
      ∀ l s', StepOf SoundCall s l s' →
        ¬ (s'.core.tcb t).state.waiting ∧ (s'.core.tcb t).ercd = (s.core.tcb t).ercd := by
  obtain ⟨a, hm, hT⟩ := h.timeInv
  obtain ⟨s', hs, hmv⟩ := hm.tick
  refine ⟨?_, ⟨s', hs, ?_, ?_, ?_⟩, ?_⟩
  · rw [hm.refines.core]
    exact hT.waiting_iff
  · intro t hn
    rw [hmv.post.refines.core, hm.refines.core, tick_of_idle hm.inv (hT.idle t hn)]
    unfold Spec.accountTcb
    dsimp only
    split <;> rfl
  -- a wait without a timeout
  · intro t c n hw hk
    have hc := hT.clocked t c n hw
    have hticks : Call.ticks c = none := by rw [Call.ticks, hk]; rfl
    rw [hmv.post.refines.core, hm.refines.core, hc.next hm.inv (by rw [hticks]; simp), if_pos hticks]
    simp only [Spec.Model.timers, BitVec.ofNat_eq_ofNat, BitVec.sub_zero]
  · intro t c n k hw hd hk hpos
    have hc := hT.clocked t c n hw
    have hticks : Call.ticks c = some k.toInt.toNat := by
      rw [Call.ticks, hk]
      exact expiry_of_pos hpos
    refine ⟨by have := (hc.count _ hticks).2.1; omega, ?_⟩
    rw [hmv.post.refines.core, hm.refines.core]
    split
    · next hlast =>
      -- the last tick of the timeout, or one before it
      have hN : Call.ticks c = some (n + 1) := by rw [hticks]; congr 1; omega
      exact ⟨hc.ercd.trans (waitErcd_of_ne hd), hc.last hm.inv hN⟩
    · next hlast =>
      have hN : Call.ticks c ≠ some (n + 1) := by
        rw [hticks]
        intro he
        have := Option.some.inj he
        omega
      rw [CountsDown, hc.next hm.inv hN, if_neg (by rw [hticks]; simp)]
      rfl
  · intro t hw hrun l s' hstep
    obtain ⟨a', hmv⟩ := hm.moves (fun _ _ h => h) hstep
    rw [hm.refines.core] at hw ⊢
    rw [hmv.post.refines.core]
    refine (Spec.exec_frame hm.inv hmv.sound _ hmv.spec).ercd t hw fun hr => hrun ?_
    rw [hm.refines.runtsk, hr, Refine.ptr_some]

/-- A task sleeps with a timeout of two ticks, and the second one has it time out. -/
theorem timeouts_exact_sleep : ∃ (tr : Trace smallConfig) (s s' : Kernel smallConfig),
    RunOf SoundCall tr s ∧ StepOf SoundCall s (.timerHandler, .none) s' ∧
      Expires (s.core.tcb 0) (s'.core.tcb 0) := by
  obtain ⟨tr, s, h, hw⟩ := exists_runOf (C := SoundCall)
    (Q := fun tr _ => waited 0 tr = some (.tslpTsk 2, 1))
    (startTasks [1] ++ [.tslpTsk 2, .timerHandler]) zeroed (by decide +kernel)
  obtain ⟨-, ⟨s', hs, -, -, htick⟩, -⟩ := timeouts_exact h
  exact ⟨tr, s, s', h, hs, (htick 0 _ _ 2 hw (by simp) rfl (by decide)).2⟩

end Ittrium
