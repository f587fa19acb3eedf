import Ittrium.Net.SemWait
import Ittrium.Properties.Ticks

/-!
# The slices of a long wait

* `Cut` — the time is cut into slices of which only the last one is not a whole one
* `Turn`, `PcInv` — what is true at each place of the function
* `leaves_cases` — **why a task stops waiting for a semaphore**
* `sem_wait_ms_exact` — **`sem_wait_ms` waits for exactly the time it is given**
-/

namespace Ittrium.Net

open Infra

variable {cfg : Config} {i : SemIx cfg} {t u : TskIx cfg} {semid : Int} {s s' : Kernel cfg}
  {a a' : Spec.Model cfg} {c : Call cfg} {r : Ittrium.Ret cfg} {left : UW} {k : TMO}

/-! ## One slice -/

theorem sliceTmo_toNat (left : UW) : (sliceTmo left).toNat = min left.toNat 10000 := by
  have hmax : lwipTmoSliceMs.toNat = 10000 := rfl
  have hle : (sliceOf left).toNat = min left.toNat 10000 := by
    unfold sliceOf
    split
    · next hgt =>
      have := BitVec.lt_def.mp hgt
      omega
    · next hle =>
      have := BitVec.not_lt.mp hle
      have := BitVec.le_def.mp this
      omega
  rw [sliceTmo, BitVec.toNat_setWidth, hle]
  omega

/-- What is cut off is a positive `TMO`, and not one of the special ones. -/
theorem sliceTmo_toInt (left : UW) : (sliceTmo left).toInt = min left.toNat 10000 := by
  have := sliceTmo_toNat left
  rw [BitVec.toInt_eq_toNat_of_lt (by omega), this]

theorem sliceTmo_signExtend (left : UW) :
    (left - (sliceTmo left).signExtend 32).toNat + (sliceTmo left).toNat = left.toNat := by
  have hk := sliceTmo_toNat left
  have hsame : ((sliceTmo left).signExtend 32).toNat = (sliceTmo left).toNat := by
    have hint : ((sliceTmo left).signExtend 32).toInt = (sliceTmo left).toInt :=
      BitVec.toInt_signExtend_of_le (by decide)
    rw [sliceTmo_toInt] at hint
    have hlt := ((sliceTmo left).signExtend 32).isLt
    rw [BitVec.toInt_eq_toNat_cond] at hint
    split at hint <;> omega
  rw [BitVec.toNat_sub_of_le (BitVec.le_def.mpr (by omega)), hsame]
  omega

/-! ## The call -/

/-- **A wait for a slice**: it takes a resource if there is one, and blocks if not. -/
theorem exec_twaiSem (hi : getSemcb semid = .ok i) (hs : (a.core.semcb i).obj.state ≠ .noexs)
    (hrun : a.runtsk = some t) (hk : k ≠ tmoPol) :
    (0 < (a.core.semcb i).semcnt ∧ ∃ a', Spec.exec (.twaiSem semid k) a = .ok (a', .er .ok)) ∨
      (¬ 0 < (a.core.semcb i).semcnt ∧
        ∃ a', Spec.exec (.twaiSem semid k) a = .ok (a', .blocked)) := by
  have hexec : Spec.exec (.twaiSem semid k) a = Spec._waiSem semid k a := rfl
  have hget : Spec.runTcb a = .ok t := by
    unfold Spec.runTcb
    rw [hrun]
  rw [hexec]
  unfold Spec._waiSem
  rw [Spec.badSemid_of_ok hi, hi]
  simp only [Bool.false_eq_true, if_false, bind, Except.bind, if_neg hs, hget]
  by_cases hcnt : 0 < (a.core.semcb i).semcnt
  · rw [if_pos hcnt]
    exact Or.inl ⟨hcnt, _, rfl⟩
  · rw [if_neg hcnt, if_pos (Ne.symm hk)]
    exact Or.inr ⟨hcnt, _, rfl⟩

/-! ## What is counted -/

section

variable {tr : WaitTrace cfg} {w w' : SemWaiter cfg} {l : WaitLabel cfg} {T : Nat}

/-- The time is cut into the slices so far and what is left. -/
structure Cut (T : Nat) (tr : WaitTrace cfg) (left : Nat) : Prop where
  sum : sliceSum tr + left = T
  /-- Only the last slice is not a whole one. -/
  whole : left ≠ 0 → sliceSum tr = 10000 * (slices tr).length
  rounds : 10000 * (slices tr).length < sliceSum tr + 10000
  slice : ∀ k ∈ slices tr, 1 ≤ k.toInt ∧ k.toInt ≤ 32767

theorem Cut.start (T : Nat) : Cut T ([] : WaitTrace cfg) T :=
  ⟨Nat.zero_add T, fun _ => rfl, by simp [slices, sliceSum], fun k hk => by cases hk⟩

theorem slices_cons_none (tr : WaitTrace cfg) (w : SemWaiter cfg) (l : WaitLabel cfg)
    (w' : SemWaiter cfg) (h : passed l = none) : slices (⟨w, l, w'⟩ :: tr) = slices tr :=
  List.filterMap_cons_none h

theorem Cut.same {left : Nat} (h : Cut T tr left) (hl : passed l = none) :
    Cut T (⟨w, l, w'⟩ :: tr) left := by
  have hslices := slices_cons_none tr w l w' hl
  refine ⟨?_, fun h0 => ?_, ?_, ?_⟩
  · rw [sliceSum, hslices]
    exact h.sum
  · rw [sliceSum, hslices]
    exact h.whole h0
  · rw [sliceSum, hslices]
    exact h.rounds
  · rw [hslices]
    exact h.slice

/-- **One more slice is cut off.** -/
theorem Cut.next (h : Cut T tr left.toNat) (h0 : left ≠ 0) (hl : passed l = some (sliceTmo left)) :
    Cut T (⟨w, l, w'⟩ :: tr) (left - (sliceTmo left).signExtend 32).toNat := by
  have hslices : slices (⟨w, l, w'⟩ :: tr) = sliceTmo left :: slices tr :=
    List.filterMap_cons_some hl
  have hpos : left.toNat ≠ 0 := fun hz => h0 (BitVec.eq_of_toNat_eq hz)
  have hk := sliceTmo_toNat left
  have hint := sliceTmo_toInt left
  have hcut := sliceTmo_signExtend left
  have hsum := h.sum
  have hwhole := h.whole hpos
  have hsum' : sliceSum (⟨w, l, w'⟩ :: tr) = (sliceTmo left).toNat + sliceSum tr := by
    rw [sliceSum, hslices]
    rfl
  have hlen : (slices (⟨w, l, w'⟩ :: tr)).length = (slices tr).length + 1 := by rw [hslices]; rfl
  refine ⟨by omega, fun _ => by omega, by omega, ?_⟩
  rw [hslices]
  intro k hk
  rcases List.mem_cons.mp hk with rfl | hk
  · omega
  · exact h.slice k hk

theorem ownSteps_cons : ownSteps (⟨w, l, w'⟩ :: tr) = ownSteps tr + if isOwn l then 1 else 0 :=
  List.countP_cons

theorem waitedTicks_cons : waitedTicks i t (⟨w, l, w'⟩ :: tr) = waitedTicks i t tr +
    if isTick l && waitsFor (.sem i) w.kernel.core t then 1 else 0 := List.countP_cons

theorem handed_cons : handed i t (⟨w, l, w'⟩ :: tr) = handed i t tr +
    if isTaken l || (leaves (.sem i) w.kernel w'.kernel t && (w'.kernel.core.tcb t).ercd = .ok)
      then 1 else 0 := List.countP_cons

/-! ## Where the task is -/

/-- The task has called `twai_sem` and not returned from it. -/
inductive Turn (semid : Int) (i : SemIx cfg) (t : TskIx cfg) (T : Nat) (tr : WaitTrace cfg)
    (a : Spec.Model cfg) (left : UW) (k : TMO) : Prop where
  | waits (n : Nat) : t ∈ a.queue (.waitq (.sem i)) → Clocked (.twaiSem semid k) n t a →
      n < k.toNat → handed i t tr = 0 → waitedTicks i t tr + left.toNat = T + n →
      Turn semid i t T tr a left k
  | given : ¬ (a.core.tcb t).state.waiting → (a.core.tcb t).ercd = .ok →
      handed i t tr = 1 → waitedTicks i t tr < T → Turn semid i t T tr a left k
  | expired : ¬ (a.core.tcb t).state.waiting → (a.core.tcb t).ercd = .tmout →
      handed i t tr = 0 → waitedTicks i t tr + left.toNat = T + k.toNat →
      Turn semid i t T tr a left k

/-- What is true at each place of the function. -/
def PcInv (semid : Int) (i : SemIx cfg) (t : TskIx cfg) (T : Nat) (tr : WaitTrace cfg)
    (a : Spec.Model cfg) : WaitPc → Prop
  | .entered timeoutMs => timeoutMs.toNat = T ∧ Cut T tr T ∧ waitedTicks i t tr = 0 ∧
      handed i t tr = 0 ∧ ownSteps tr = 0 ∧ ¬ (a.core.tcb t).state.waiting
  | .forever => False
  | .round left => Cut T tr left.toNat ∧ waitedTicks i t tr + left.toNat = T ∧
      handed i t tr = 0 ∧ ownSteps tr ≤ 2 * (slices tr).length + 1 ∧ ¬ (a.core.tcb t).state.waiting
  | .inSlice left k => left ≠ 0 ∧ k = sliceTmo left ∧
      Cut T tr (left - k.signExtend 32).toNat ∧ ownSteps tr ≤ 2 * (slices tr).length ∧
      Turn semid i t T tr a left k
  | .returned er => (∃ left, Cut T tr left ∧ (er = .tmout → left = 0)) ∧
      ownSteps tr ≤ 2 * (slices tr).length + 2 ∧
      (er = .ok ∧ handed i t tr = 1 ∧ waitedTicks i t tr < T ∨
        er = .tmout ∧ handed i t tr = 0 ∧ waitedTicks i t tr = T)

/-- What a run keeps. -/
structure WaitInv (semid : Int) (i : SemIx cfg) (t : TskIx cfg) (T : Nat) (tr : WaitTrace cfg)
    (w : SemWaiter cfg) (a : Spec.Model cfg) : Prop where
  models : Models w.kernel a
  existing : (a.core.semcb i).obj.state ≠ .noexs
  pc : PcInv semid i t T tr a w.pc

/-! ### Steps of the others -/

theorem sem_stays (hm : Moves SoundCall s a c r s' a')
    (hs : (a.core.semcb i).obj.state ≠ .noexs) (hdel : ¬ Deletes (.sem i) c) :
    (a'.core.semcb i).obj.state ≠ .noexs := by
  cases hm.semStep hs hdel with
  | handed _ _ _ _ _ hcb | counted _ _ _ _ hcb | taken _ _ _ _ hcb | still _ _ hcb _ _ =>
    rw [hcb]
    exact hs

/-- A task that does not wait is not disturbed. -/
theorem idle_stays (hm : Moves SoundCall s a c r s' a') (hw : ¬ (a.core.tcb t).state.waiting)
    (hrun : s.runtsk = .qnode t → Spec.fromHandler c = true) :
    ¬ (a'.core.tcb t).state.waiting ∧ (a'.core.tcb t).ercd = (a.core.tcb t).ercd := by
  by_cases hr : a.runtsk = some t
  · refine Spec.handler_uninterrupted hm.pre.inv (hrun ?_) hm.spec t hw
    rw [hm.pre.refines.runtsk, hr, Refine.ptr_some]
  · exact (Spec.exec_frame hm.pre.inv hm.sound _ hm.spec).ercd t hw hr

/-- Nothing is counted for a task that does not wait. -/
theorem idle_counts (i : SemIx cfg) (tr : WaitTrace cfg) (l : WaitLabel cfg) (w' : SemWaiter cfg)
    (hm : Models w.kernel a) (hw : ¬ (a.core.tcb t).state.waiting) (hl : isTaken l = false) :
    waitedTicks i t (⟨w, l, w'⟩ :: tr) = waitedTicks i t tr ∧
      handed i t (⟨w, l, w'⟩ :: tr) = handed i t tr := by
  have hfor : waitsFor (.sem i) w.kernel.core t = false := by
    rw [hm.refines.core, ← Bool.not_eq_true, waitsFor_iff]
    exact fun h => hw h.1
  rw [waitedTicks_cons, handed_cons, hl, hfor]
  simp [leaves, hfor]

/-- A call that asks for the semaphore takes nobody out of its line. -/
theorem requests_stays (hm : Moves SoundCall s a c r s' a') (hreq : Spec.Requests i c)
    (hs : (a.core.semcb i).obj.state ≠ .noexs) (ht : t ∈ a.queue (.waitq (.sem i))) :
    t ∈ a'.queue (.waitq (.sem i)) := by
  obtain ⟨b, hb, hd⟩ := Spec.exec_waiSem hreq hs hm.spec
  cases hb with
  | obtained _ _ | failed _ _ =>
    rw [hd.queue]
    exact ht
  | blocked _ _ =>
    obtain ⟨v, _, _, b, _, _, hB, rfl⟩ := Spec.exec_blocks hm.pre.inv hm.sound hm.spec
    exact hB.still hm.pre.inv.toSettled ht

/-- **Who stops waiting for the semaphore has got a resource from a signal, or its time is up.** -/
theorem leaves_cases (hm : Moves SoundCall s a c r s' a') (hdel : ¬ Deletes (.sem i) c)
    (hdelT : ¬ DeletesTask t c) (ht : t ∈ a.queue (.waitq (.sem i)))
    (hn : t ∉ a'.queue (.waitq (.sem i))) :
    (c ≠ .timerHandler ∧ (a'.core.tcb t).ercd = .ok) ∨
      (c = .timerHandler ∧ (a'.core.tcb t).ercd = (a.core.tcb t).ercd) := by
  have hst := hm.pre.inv.toSettled
  have hs := hst.exists_of_waitq _ _ ht
  cases Spec.exec_departs hm.pre.inv hm.sound hm.spec ht hn with
  | deleted hc _ _ =>
    obtain ⟨tskid, rfl⟩ := hc
    have hcases := Spec.delTsk_cases hm.spec
    rcases hcases with hself | ⟨-, u, hu, -, rfl⟩
    · exact absurd (hself ▸ ht) hn
    · have hne : t ≠ u := by
        rintro rfl
        exact hdelT hu
      exact absurd (((Spec.Others.delete hst).mem t hne _).mpr ht) hn
  | timeout hc he => exact Or.inr ⟨hc, he⟩
  | call hobj =>
    have hne : c ≠ .timerHandler := by
      rintro rfl
      cases hobj
    refine Or.inl ⟨hne, ?_⟩
    cases hm.semStep hs hdel with
    | @handed u us _ _ hq hq' he _ =>
      rw [hq] at ht
      rw [hq'] at hn
      obtain rfl := (List.mem_cons.mp ht).resolve_right hn
      exact he
    | counted _ _ hq _ _ =>
      rw [hq] at ht
      cases ht
    | taken _ _ _ hq _ => exact absurd (hq ▸ ht) hn
    | still hret _ _ _ hleave =>
      -- the other calls on a semaphore leave its line alone
      have hget : ∀ {semid : Int}, (getSemcb semid : Exec (SemIx cfg)).toOption.map ObjId.sem =
          some (.sem i) → getSemcb semid = .ok i := ok_of_toOption_map fun _ _ => ObjId.sem.inj
      exfalso
      cases c with
      | creSem semid pk =>
        obtain rfl := (Spec.exec_creSem_exists (hget hobj) hs hm.spec).1
        exact hn ht
      | refSem semid =>
        obtain rfl := Spec.exec_refSem hm.spec
        exact hn ht
      | delSem semid => exact hdel hobj
      | waiSem semid | twaiSem semid _ | polSem semid =>
        exact hn (requests_stays hm (hget hobj) hs ht)
      | sigSem semid | isigSem semid => exact (hleave t ht hn).1 (hget hobj)
      | _ => first | cases hobj | exact absurd hobj (toOption_map_ne (by simp))

/-- The end of a slice is the tick that ends the wait. -/
theorem ticks_twaiSem (hi : getSemcb semid = .ok i) (hk : 1 ≤ k.toInt) :
    Call.ticks (.twaiSem semid k : Call cfg) = some k.toInt.toNat := by
  have hwait : Call.timeout (.twaiSem semid k : Call cfg) = some k := by
    show ((getSemcb semid : Exec (SemIx cfg)).toOption.map fun i =>
      (some (ObjId.sem i), k)).map Prod.snd = some k
    rw [hi]
    rfl
  unfold Call.ticks
  rw [hwait]
  exact expiry_of_pos hk

theorem isTick_other :
    isTick ((.other c, some (c, r)) : WaitLabel cfg) = true ↔ c = .timerHandler := by
  cases c <;> simp [isTick]

/-- The running task does not wait. -/
theorem running_idle (hm : Models s a) (hrun : s.runtsk = .qnode t) :
    a.runtsk = some t ∧ ¬ (a.core.tcb t).state.waiting := by
  have hr : a.runtsk = some t := by
    rw [hm.refines.runtsk] at hrun
    cases ha : a.runtsk with
    | none =>
      rw [ha] at hrun
      cases hrun
    | some u =>
      rw [ha, Refine.ptr_some] at hrun
      rw [Node.qnode.inj hrun]
  refine ⟨hr, ?_⟩
  rw [hm.inv.runtsk t hr]
  decide

/-- **A call of the others, while the task is in `twai_sem`.** -/
theorem Turn.other (hi : getSemcb semid = .ok i) (h0 : left ≠ 0)
    (h : Turn semid i t T tr a left (sliceTmo left)) (hm : Moves SoundCall s a c r s' a')
    (hw : w.kernel = s) (hw' : w'.kernel = s') (hdel : ¬ Deletes (.sem i) c)
    (hdelT : ¬ DeletesTask t c) (hrun : s.runtsk = .qnode t → Spec.fromHandler c = true) :
    Turn semid i t T (⟨w, (.other c, some (c, r)), w'⟩ :: tr) a' left (sliceTmo left) := by
  subst hw hw'
  have hk := sliceTmo_toNat left
  have hint := sliceTmo_toInt left
  have hpos : left.toNat ≠ 0 := fun hz => h0 (BitVec.eq_of_toNat_eq hz)
  cases h with
  | given hidle he hhand hlt =>
    obtain ⟨h₁, h₂⟩ := idle_stays hm hidle hrun
    obtain ⟨h₃, h₄⟩ := idle_counts i tr (.other c, some (c, r)) w' hm.pre
      hidle rfl
    exact .given h₁ (h₂.trans he) (h₄.trans hhand) (by omega)
  | expired hidle he hhand hsum =>
    obtain ⟨h₁, h₂⟩ := idle_stays hm hidle hrun
    obtain ⟨h₃, h₄⟩ := idle_counts i tr (.other c, some (c, r)) w' hm.pre
      hidle rfl
    exact .expired h₁ (h₂.trans he) (h₄.trans hhand) (by omega)
  | waits n hq hclk hlast hhand hsum =>
    have hwait := hm.pre.inv.toSettled.waiting_of_mem hq
    have hfor : waitsFor (.sem i) w.kernel.core t = true := by
      rw [hm.pre.refines.core]
      exact (hm.pre.inv.toSettled.mem_waitq _ _).mp hq
    have hticks := (ticks_twaiSem hi (by omega) :
      Call.ticks (.twaiSem semid (sliceTmo left) : Call cfg) = some (sliceTmo left).toInt.toNat)
    have hleaves := hm.leaves_iff (t := t) (.sem i)
    by_cases hq' : t ∈ a'.queue (.waitq (.sem i))
    · -- the wait goes on
      have hwait' := hm.post.inv.toSettled.waiting_of_mem hq'
      have hstay : leaves (.sem i) w.kernel w'.kernel t = false := by
        rw [← Bool.not_eq_true, hleaves]
        exact fun h => h.2 hq'
      have hhand' : handed i t (⟨w, (.other c, some (c, r)), w'⟩ :: tr) = 0 := by
        rw [handed_cons, hstay, hhand]
        rfl
      by_cases hc : c = .timerHandler
      · obtain rfl : Spec.timerHandler a = a' := by
          have hspec := hm.spec
          rw [hc] at hspec
          exact congrArg Prod.fst (Except.ok.inj hspec)
        have hcount : waitedTicks i t (⟨w, (.other c, some (c, r)), w'⟩ :: tr) =
            waitedTicks i t tr + 1 := by
          rw [waitedTicks_cons, isTick_other.mpr hc, hfor]
          rfl
        have hclk' := hclk.tick hm.pre.inv hwait'
        have hlast' := (hclk'.count _ hticks).2.1
        exact .waits (n + 1) hq' hclk' (by omega) hhand' (by omega)
      · have hcount : waitedTicks i t (⟨w, (.other c, some (c, r)), w'⟩ :: tr) =
            waitedTicks i t tr := by
          rw [waitedTicks_cons, Bool.eq_false_iff.mpr (mt isTick_other.mp hc)]
          rfl
        obtain ⟨-, he, htq, htim⟩ := hm.still hwait' fun h => (running_idle hm.pre h.2).2 hwait
        exact .waits n hq' (hclk.same hwait' he htq (htim hc)) hlast hhand' (by omega)
    · have hdone := Spec.exec_leaves hm.pre.inv hm.sound hm.spec hq hq'
      have hleave : leaves (.sem i) w.kernel w'.kernel t = true := hleaves.mpr ⟨hq, hq'⟩
      rcases leaves_cases hm hdel hdelT hq hq' with ⟨hc, he⟩ | ⟨hc, he⟩
      · -- a signal has come before the slice was over
        have hcount : waitedTicks i t (⟨w, (.other c, some (c, r)), w'⟩ :: tr) =
            waitedTicks i t tr := by
          rw [waitedTicks_cons, Bool.eq_false_iff.mpr (mt isTick_other.mp hc)]
          rfl
        refine .given hdone he ?_ (by omega)
        rw [handed_cons, hleave, hhand, hm.post.refines.core, he]
        rfl
      · -- this was the last tick of the slice
        have hcount : waitedTicks i t (⟨w, (.other c, some (c, r)), w'⟩ :: tr) =
            waitedTicks i t tr + 1 := by
          rw [waitedTicks_cons, isTick_other.mpr hc, hfor]
          rfl
        have hend : n + 1 = (sliceTmo left).toNat := by
          have hspec := hm.spec
          rw [hc] at hspec
          obtain rfl : Spec.timerHandler a = a' := congrArg Prod.fst (Except.ok.inj hspec)
          have hexpiry := Classical.not_not.mp (mt (hclk.waiting_iff hm.pre.inv).mpr hdone)
          have := Option.some.inj (hticks.symm.trans hexpiry)
          omega
        have hercd : (a'.core.tcb t).ercd = .tmout := he.trans hclk.ercd
        refine .expired hdone hercd ?_ (by omega)
        rw [handed_cons, hleave, hhand, hm.post.refines.core, hercd]
        rfl

theorem WaitInv.other (hi : getSemcb semid = .ok i) (h : WaitInv semid i t T tr w a)
    (hm : Moves SoundCall w.kernel a c r s' a') (hc : Allowed i t w (.other c)) :
    WaitInv semid i t T (⟨w, (.other c, some (c, r)), ⟨s', w.pc⟩⟩ :: tr) ⟨s', w.pc⟩ a' := by
  -- the slices and the steps are those of the task, so only the counts of its wait can change
  obtain ⟨hnr, -, hdel, hdelT, hrun⟩ := hc
  refine ⟨hm.post, sem_stays hm h.existing hdel, ?_⟩
  have hpc := h.pc
  have hown : ownSteps (⟨w, (.other c, some (c, r)), ⟨s', w.pc⟩⟩ :: tr) = ownSteps tr :=
    ownSteps_cons
  have hslices := slices_cons_none tr w (.other c, some (c, r)) ⟨s', w.pc⟩ rfl
  cases hp : w.pc with
  | entered timeoutMs =>
    rw [hp] at hpc hown hslices
    obtain ⟨hT, hcut, hticks, hhand, hsteps, hidle⟩ := hpc
    obtain ⟨h₃, h₄⟩ := idle_counts i tr (.other c, some (c, r)) ⟨s', .entered timeoutMs⟩ hm.pre
      hidle rfl
    exact ⟨hT, hcut.same rfl, h₃.trans hticks, h₄.trans hhand, hown.trans hsteps,
      (idle_stays hm hidle hrun).1⟩
  | forever =>
    rw [hp] at hpc
    exact hpc.elim
  | round left =>
    rw [hp] at hpc hown hslices
    obtain ⟨hcut, hticks, hhand, hsteps, hidle⟩ := hpc
    obtain ⟨h₃, h₄⟩ := idle_counts i tr (.other c, some (c, r)) ⟨s', .round left⟩ hm.pre
      hidle rfl
    refine ⟨hcut.same rfl, by rw [h₃]; exact hticks, h₄.trans hhand, ?_,
      (idle_stays hm hidle hrun).1⟩
    rw [hown, hslices]
    exact hsteps
  | inSlice left k =>
    rw [hp] at hpc hown hslices
    obtain ⟨h0, rfl, hcut, hsteps, hturn⟩ := hpc
    refine ⟨h0, rfl, hcut.same rfl, ?_, hturn.other hi h0 hm rfl rfl hdel hdelT hrun⟩
    rw [hown, hslices]
    exact hsteps
  | returned er =>
    rw [hp] at hnr
    cases hnr

/-! ### Steps of the task -/

/-- **The beginning of a slice**: a resource that is there is taken. -/
theorem own_round (hi : getSemcb semid = .ok i) (hm : Models w.kernel a)
    (hs : (a.core.semcb i).obj.state ≠ .noexs) (hrun : w.kernel.runtsk = .qnode t)
    (hpc : w.pc = .round left) (h0 : left ≠ 0) :
    (0 < (a.core.semcb i).semcnt ∧ ∃ s' a', w.own semid t =
        some (⟨s', .returned .ok⟩, some (.twaiSem semid (sliceTmo left), .er .ok)) ∧
      Moves SoundCall w.kernel a (.twaiSem semid (sliceTmo left)) (.er .ok) s' a') ∨
    (¬ 0 < (a.core.semcb i).semcnt ∧ ∃ s' a', w.own semid t =
        some (⟨s', .inSlice left (sliceTmo left)⟩,
          some (.twaiSem semid (sliceTmo left), .blocked)) ∧
      Moves SoundCall w.kernel a (.twaiSem semid (sliceTmo left)) .blocked s' a') := by
  have hpos : left.toNat ≠ 0 := fun hz => h0 (BitVec.eq_of_toNat_eq hz)
  have hgt : left > 0 := BitVec.lt_def.mpr (Nat.pos_of_ne_zero hpos)
  have hint := sliceTmo_toInt left
  -- a slice of 0 would be a poll, which does not wait
  have hk : sliceTmo left ≠ tmoPol := by
    intro hk
    have hzero : (sliceTmo left).toInt = 0 := by rw [hk]; rfl
    omega
  have hown : w.own semid t = serviceCall (.twaiSem semid (sliceTmo left))
      (afterSlice left (sliceTmo left)) (.inSlice left (sliceTmo left)) w.kernel := by
    unfold SemWaiter.own
    rw [hpc]
    exact if_pos hgt
  have hsound : SoundCall w.kernel (.twaiSem semid (sliceTmo left)) := trivial
  rw [hown]
  rcases exec_twaiSem hi hs (running_idle hm hrun).1 hk with ⟨hcnt, a', ha'⟩ | ⟨hcnt, a', ha'⟩
  · obtain ⟨s', hs', hm'⟩ := hm.exists_step hsound ha'
    refine Or.inl ⟨hcnt, s', a', ?_, hm, hm', hsound, hs', ha', trivial⟩
    unfold serviceCall
    rw [hs']
    rfl
  · obtain ⟨s', hs', hm'⟩ := hm.exists_step hsound ha'
    refine Or.inr ⟨hcnt, s', a', ?_, hm, hm', hsound, hs', ha', trivial⟩
    unfold serviceCall
    rw [hs']

/-- The task begins to wait. -/
theorem Turn.start (hi : getSemcb semid = .ok i)
    (hm : Moves SoundCall w.kernel a (.twaiSem semid k) .blocked s' a')
    (hrun : w.kernel.runtsk = .qnode t) (hk : 0 < k.toNat) (hhand : handed i t tr = 0)
    (hticks : waitedTicks i t tr + left.toNat = T) : Turn semid i t T tr a' left k := by
  obtain ⟨v, o, tmout, b, hwait, hv, hB, rfl⟩ := Spec.exec_blocks hm.pre.inv hm.sound hm.spec
  have hw : ((getSemcb semid : Exec (SemIx cfg)).toOption.map fun i =>
      (some (ObjId.sem i), k)) = some (o, tmout) := hwait
  rw [hi] at hw
  obtain ⟨rfl, rfl⟩ := Prod.mk.inj (Option.some.inj hw)
  obtain rfl : t = v := Option.some.inj ((running_idle hm.pre hrun).1.symm.trans hv)
  obtain ⟨-, u, hu, hst⟩ := Spec.exec_blocked hwait hm.spec
  obtain rfl : t = u := Option.some.inj (hv.symm.trans hu)
  have hmem : t ∈ b.queue (.waitq (.sem i)) := by
    refine ((hB.settled.task t).waitq (.sem i)).mpr ⟨?_, hB.waitObj⟩
    rw [hB.wait]
    rfl
  exact .waits 0 hmem (.start hwait hB hst) hk hhand (by omega)

/-- A step of the task is not a tick that it waits for. It is handed what the step takes. -/
theorem own_counts (i : SemIx cfg) (tr : WaitTrace cfg) (hm : Models w.kernel a)
    (hrun : w.kernel.runtsk = .qnode t) (l : Option (Label cfg)) (w' : SemWaiter cfg) :
    ownSteps (⟨w, (.own, l), w'⟩ :: tr) = ownSteps tr + 1 ∧
      waitedTicks i t (⟨w, (.own, l), w'⟩ :: tr) = waitedTicks i t tr ∧
      handed i t (⟨w, (.own, l), w'⟩ :: tr) =
        handed i t tr + if isTaken (.own, l) then 1 else 0 := by
  have hfor : waitsFor (.sem i) w.kernel.core t = false := by
    rw [hm.refines.core, ← Bool.not_eq_true, waitsFor_iff]
    exact fun hw => (running_idle hm hrun).2 hw.1
  refine ⟨ownSteps_cons, ?_, ?_⟩
  · rw [waitedTicks_cons, hfor, Bool.and_false]
    rfl
  · rw [handed_cons]
    simp [leaves, hfor]

/-- The loop begins. -/
theorem WaitInv.enter {timeoutMs : UW} (hT : T ≠ 0) (h : WaitInv semid i t T tr w a)
    (hrun : w.kernel.runtsk = .qnode t) (hp : w.pc = .entered timeoutMs) :
    ∃ w' l, w.own semid t = some (w', l) ∧
      ∃ a', WaitInv semid i t T (⟨w, (.own, l), w'⟩ :: tr) w' a' := by
  have hpc := h.pc
  rw [hp] at hpc
  obtain ⟨hn, hcut, hticks, hhand, hsteps, -⟩ := hpc
  have h0 : timeoutMs ≠ 0 := by
    rintro rfl
    exact hT hn.symm
  refine ⟨⟨w.kernel, .round timeoutMs⟩, none, ?_, a, h.models, h.existing, ?_⟩
  · unfold SemWaiter.own
    rw [hp]
    exact if_neg h0
  · obtain ⟨hown, hticked, hgiven⟩ :=
      own_counts i tr h.models hrun none ⟨w.kernel, .round timeoutMs⟩
    rw [← hn] at hcut
    have hslices := slices_cons_none tr w (.own, none) ⟨w.kernel, .round timeoutMs⟩ rfl
    refine ⟨hn ▸ hcut.same rfl, by rw [hticked]; omega, hgiven.trans hhand, ?_,
      (running_idle h.models hrun).2⟩
    rw [hown, hsteps]
    omega

/-- Between two slices the task returns if no time is left. Else it begins the next one. -/
theorem WaitInv.next (hi : getSemcb semid = .ok i) (h : WaitInv semid i t T tr w a)
    (hrun : w.kernel.runtsk = .qnode t) (hp : w.pc = .round left) :
    ∃ w' l, w.own semid t = some (w', l) ∧
      ∃ a', WaitInv semid i t T (⟨w, (.own, l), w'⟩ :: tr) w' a' := by
  have hpc := h.pc
  rw [hp] at hpc
  obtain ⟨hcut, hticks, hhand, hsteps, -⟩ := hpc
  by_cases h0 : left = 0
  · subst h0
    obtain ⟨hown, hticked, hgiven⟩ :=
      own_counts i tr h.models hrun none ⟨w.kernel, .returned .tmout⟩
    have hslices := slices_cons_none tr w (.own, none) ⟨w.kernel, .returned .tmout⟩ rfl
    refine ⟨⟨w.kernel, .returned .tmout⟩, none, ?_, a, h.models, h.existing,
      ⟨0, hcut.same rfl, fun _ => rfl⟩, ?_, Or.inr ⟨rfl, hgiven.trans hhand, ?_⟩⟩
    · unfold SemWaiter.own
      rw [hp]
      rfl
    · rw [hown, hslices]
      omega
    · rw [hticked]
      exact hticks
  · have hpos : left.toNat ≠ 0 := fun hz => h0 (BitVec.eq_of_toNat_eq hz)
    have hk := sliceTmo_toNat left
    have hlen : ∀ w' r, (slices (⟨w, (.own, some (.twaiSem semid (sliceTmo left), r)), w'⟩ ::
        tr)).length = (slices tr).length + 1 := by
      intro w' r
      have hcons : slices (⟨w, (.own, some (.twaiSem semid (sliceTmo left), r)), w'⟩ :: tr) =
          sliceTmo left :: slices tr := List.filterMap_cons_some rfl
      rw [hcons]
      rfl
    rcases own_round hi h.models h.existing hrun hp h0 with
      ⟨-, s', a', he, hm⟩ | ⟨-, s', a', he, hm⟩
    -- the resource is there, so the slice takes no time
    · obtain ⟨hown, hticked, hgiven⟩ := own_counts i tr h.models hrun
        (some (.twaiSem semid (sliceTmo left), .er .ok)) ⟨s', .returned .ok⟩
      refine ⟨_, _, he, a', hm.post, sem_stays hm h.existing id,
        ⟨_, hcut.next h0 rfl, fun he => by cases he⟩, ?_, Or.inl ⟨rfl, ?_, ?_⟩⟩
      · rw [hown, hlen]
        omega
      · rw [hgiven, hhand]
        rfl
      · rw [hticked]
        omega
    · obtain ⟨hown, hticked, hgiven⟩ := own_counts i tr h.models hrun
        (some (.twaiSem semid (sliceTmo left), .blocked)) ⟨s', .inSlice left (sliceTmo left)⟩
      refine ⟨_, _, he, a', hm.post, sem_stays hm h.existing id, h0, rfl, hcut.next h0 rfl, ?_,
        .start hi hm hrun (by omega) ?_ ?_⟩
      · rw [hown, hlen]
        omega
      · exact hgiven.trans hhand
      · rw [hticked]
        exact hticks

/-- A task that runs inside a slice has got the resource, or the slice is over. -/
theorem WaitInv.leave {k : TMO} (h : WaitInv semid i t T tr w a)
    (hrun : w.kernel.runtsk = .qnode t) (hp : w.pc = .inSlice left k) :
    ∃ w' l, w.own semid t = some (w', l) ∧
      ∃ a', WaitInv semid i t T (⟨w, (.own, l), w'⟩ :: tr) w' a' := by
  have hidle := (running_idle h.models hrun).2
  have hpc := h.pc
  rw [hp] at hpc
  obtain ⟨h0, rfl, hcut, hsteps, hturn⟩ := hpc
  have hslices : ∀ w', slices (⟨w, (.own, none), w'⟩ :: tr) = slices tr := fun w' =>
    slices_cons_none tr w (.own, none) w' rfl
  have he : w.own semid t = some (⟨w.kernel, afterSlice left (sliceTmo left)
      (a.core.tcb t).ercd⟩, none) := by
    unfold SemWaiter.own
    rw [hp, h.models.refines.core]
  refine ⟨_, _, he, a, h.models, h.existing, ?_⟩
  obtain ⟨hown, hticked, hgiven⟩ := own_counts i tr h.models hrun none
    ⟨w.kernel, afterSlice left (sliceTmo left) (a.core.tcb t).ercd⟩
  cases hturn with
  | waits n hq _ _ _ _ => exact absurd (h.models.inv.toSettled.waiting_of_mem hq) hidle
  | given _ hercd hhand hlt =>
    rw [hercd] at hown hticked hgiven ⊢
    refine ⟨⟨_, hcut.same rfl, fun he => by cases he⟩, ?_,
      Or.inl ⟨rfl, hgiven.trans hhand, ?_⟩⟩
    · rw [hown, hslices]
      omega
    · rw [hticked]
      exact hlt
  | expired _ hercd hhand hsum =>
    rw [hercd] at hown hticked hgiven ⊢
    have hk := sliceTmo_signExtend left
    refine ⟨hcut.same rfl, ?_, hgiven.trans hhand, ?_, hidle⟩
    · rw [hticked]
      omega
    · rw [hown, hslices]
      omega

/-- **A step of the task.** -/
theorem WaitInv.own (hi : getSemcb semid = .ok i) (hT : T ≠ 0) (h : WaitInv semid i t T tr w a)
    (hrun : w.kernel.runtsk = .qnode t) (hnr : w.pc.isReturned = false) :
    ∃ w' l, w.own semid t = some (w', l) ∧
      ∃ a', WaitInv semid i t T (⟨w, (.own, l), w'⟩ :: tr) w' a' := by
  cases hp : w.pc with
  | entered timeoutMs => exact h.enter hT hrun hp
  | forever =>
    have hpc := h.pc
    rw [hp] at hpc
    exact hpc.elim
  | round left => exact h.next hi hrun hp
  | inSlice left k => exact h.leave hrun hp
  | returned er =>
    rw [hp] at hnr
    cases hnr

/-! ## Runs -/

variable {timeoutMs : UW} {act : WaitAct cfg} {o : Option (Label cfg)}

theorem Enters.waitInv (h : Enters i t timeoutMs w) :
    ∃ a, WaitInv semid i t timeoutMs.toNat [] w a := by
  obtain ⟨tr, hrun⟩ := h.reached
  obtain ⟨a, hm, -⟩ := hrun.timeInv
  refine ⟨a, hm, by rw [← hm.refines.core]; exact h.existing, ?_⟩
  rw [h.pc]
  exact ⟨rfl, .start _, rfl, rfl, rfl, (running_idle hm h.running).2⟩

/-- What a step of the others does. -/
theorem step_other (hm : Models w.kernel a) (hs : SoundCall w.kernel c)
    (h : w.step semid t (.other c) = some (w', o)) :
    ∃ s' r a', w' = ⟨s', w.pc⟩ ∧ o = some (c, r) ∧ Moves SoundCall w.kernel a c r s' a' := by
  unfold SemWaiter.step at h
  dsimp only at h
  cases hx : exec c w.kernel with
  | error e =>
    rw [hx] at h
    cases h
  | ok v =>
    rw [hx] at h
    obtain ⟨rfl, rfl⟩ := Prod.mk.inj (Option.some.inj h)
    obtain ⟨a', hmoves⟩ := hm.moves (fun _ _ h => h) (l := (c, v.2)) ⟨hs, hx⟩
    exact ⟨v.1, v.2, a', rfl, rfl, hmoves⟩

/-- What is true in the beginning is true after every step. -/
theorem SemWaitRun.waitInv (hi : getSemcb semid = .ok i) (hT : timeoutMs.toNat ≠ 0)
    (h : SemWaitRun semid i t timeoutMs tr w) :
    ∃ a, WaitInv semid i t timeoutMs.toNat tr w a := by
  induction h with
  | start h => exact h.waitInv
  | @step tr w w' l _ hs ih =>
    obtain ⟨a, hinv⟩ := ih
    obtain ⟨act, o⟩ := l
    obtain ⟨hallowed, hstep⟩ := hs
    cases act with
    | other c =>
      obtain ⟨s', r, a', rfl, rfl, hm⟩ := step_other hinv.models hallowed.2.1 hstep
      exact ⟨a', hinv.other hi hm hallowed⟩
    | own =>
      unfold SemWaiter.step at hstep
      dsimp only at hstep
      split at hstep
      · next hrun =>
        have hnr : w.pc.isReturned = false := by
          unfold SemWaiter.own at hstep
          cases hp : w.pc with
          | returned er =>
            rw [hp] at hstep
            cases hstep
          | _ => rfl
        obtain ⟨w₁, l₁, he, a', hinv'⟩ := hinv.own hi hT hrun hnr
        rw [he] at hstep
        obtain ⟨rfl, rfl⟩ := Prod.mk.inj (Option.some.inj hstep)
        exact ⟨a', hinv'⟩
      · cases hstep

theorem PcInv.bounds {pc : WaitPc} (h : PcInv semid i t T tr a pc) :
    (∃ left, Cut T tr left) ∧ ownSteps tr ≤ 2 * (slices tr).length + 2 ∧
      waitedTicks i t tr ≤ T := by
  cases pc with
  | entered timeoutMs =>
    obtain ⟨-, hcut, hticks, -, hsteps, -⟩ := h
    exact ⟨⟨_, hcut⟩, by omega, by omega⟩
  | forever => exact h.elim
  | round left =>
    obtain ⟨hcut, hticks, -, hsteps, -⟩ := h
    exact ⟨⟨_, hcut⟩, by omega, by omega⟩
  | inSlice left k =>
    obtain ⟨h0, rfl, hcut, hsteps, hturn⟩ := h
    have hk := sliceTmo_toNat left
    refine ⟨⟨_, hcut⟩, by omega, ?_⟩
    cases hturn with
    | waits n _ _ hlt _ hsum => omega
    | given _ _ _ hlt => omega
    | expired _ _ _ hsum => omega
  | returned er =>
    obtain ⟨⟨left, hcut, -⟩, hsteps, hres⟩ := h
    exact ⟨⟨_, hcut⟩, hsteps, by omega⟩

/-- **`sem_wait_ms` cuts its time into slices of which none is too long for a `TMO`, waits for
exactly that time unless it is given a resource before, and misses none.** -/
theorem sem_wait_ms_exact (hi : getSemcb semid = .ok i) (hT : 1 ≤ timeoutMs.toNat)
    (h : SemWaitRun semid i t timeoutMs tr w) : Sliced semid i t timeoutMs tr w := by
  obtain ⟨a, hinv⟩ := SemWaitRun.waitInv hi (by omega) h
  obtain ⟨⟨left, hcut⟩, hsteps, hticks⟩ := hinv.pc.bounds
  have hsum := hcut.sum
  have hrounds := hcut.rounds
  refine ⟨hcut.slice, by omega, hticks, by omega, hsteps, ?_, ?_, ?_, ?_⟩
  · intro hrun hnr
    obtain ⟨w', l, he, -⟩ := hinv.own hi (by omega) hrun hnr
    refine ⟨w', l, ?_⟩
    unfold SemWaiter.step
    exact (if_pos hrun).trans he
  -- a signal that nobody waits for is kept
  · intro c w' hc hstep hsig hnone
    obtain ⟨s', r, a', rfl, hr, hm⟩ := step_other hinv.models hc.2.1 hstep
    have hret : Returns i (c, r) := ⟨hsig, (Prod.mk.inj (Option.some.inj hr)).2.symm⟩
    have hobj : (w.kernel.core.objcb (.sem i)).state ≠ .noexs := by
      rw [hinv.models.refines.core]
      exact hinv.existing
    rw [hinv.models.waiters_eq _ hobj] at hnone
    show (s'.core.semcb i).semcnt = _
    rw [hm.post.refines.core, hinv.models.refines.core]
    cases hm.semStep hinv.existing hc.2.2.1 with
    | handed _ _ hq _ _ _ =>
      rw [hq] at hnone
      cases hnone
    | counted _ _ _ _ hcb => rw [hcb]
    | taken hreq _ _ _ _ => exact absurd hsig hreq.not_signals
    | still hn _ _ _ _ => exact absurd hret hn
  -- a resource that is there when a slice begins is taken
  · intro left w' l hp h0 hcnt hstep
    unfold SemWaiter.step at hstep
    dsimp only at hstep
    split at hstep
    · next hrun =>
      rw [hinv.models.refines.core] at hcnt
      rcases own_round hi hinv.models hinv.existing hrun hp h0 with
        ⟨-, s', a', he, hm⟩ | ⟨hn, -⟩
      · rw [he] at hstep
        obtain ⟨rfl, -⟩ := Prod.mk.inj (Option.some.inj hstep)
        refine ⟨rfl, ?_⟩
        show (s'.core.semcb i).semcnt = _
        rw [hm.post.refines.core, hinv.models.refines.core]
        cases hm.semStep hinv.existing id with
        | handed hsig _ _ _ _ _ | counted hsig _ _ _ _ => exact hsig.elim
        | taken _ _ _ _ hcb => rw [hcb]
        | still _ hn _ _ _ => exact absurd ⟨hi, rfl⟩ hn
      · exact absurd hcnt hn
    · cases hstep
  -- what it returns with
  · intro er hp
    have hpc := hinv.pc
    rw [hp] at hpc
    obtain ⟨⟨left, hcut, hleft⟩, -, hres⟩ := hpc
    rcases hres with hres | ⟨rfl, hhand, hwhole⟩
    · exact Or.inl hres
    · have hsum := hcut.sum
      exact Or.inr ⟨rfl, hhand, hwhole, by have := hleft rfl; omega⟩

/-! ## A wait of two slices -/

/-- After the calls `before` the task calls `sem_wait_ms`, and the steps `acts` are taken. -/
def enterAndGoOn (semid : Int) (i : SemIx cfg) (t : TskIx cfg) (timeoutMs : UW)
    (before : List (Call cfg)) (acts : List (WaitAct cfg)) (m : Kernel cfg) :
    Option (WaitTrace cfg × SemWaiter cfg) :=
  (runCalls SoundCall before [] (boot m)).bind fun v =>
    if v.2.runtsk = .qnode t ∧ (v.2.core.semcb i).obj.state ≠ .noexs then
      perform (SemWaiter.step semid t) (Allowed i t) acts [] ⟨v.2, .entered timeoutMs⟩
    else none

theorem enterAndGoOn_run {before : List (Call cfg)} {acts : List (WaitAct cfg)} {m : Kernel cfg}
    (h : enterAndGoOn semid i t timeoutMs before acts m = some (tr, w)) :
    SemWaitRun semid i t timeoutMs tr w := by
  obtain ⟨⟨tr₀, s₀⟩, h₀, h⟩ := Option.bind_eq_some_iff.mp h
  split at h
  · next hs =>
    have hstart : Enters i t timeoutMs ⟨s₀, .entered timeoutMs⟩ :=
      ⟨⟨tr₀, runCalls_run (.start ⟨m, rfl⟩) h₀⟩, hs.1, hs.2, rfl⟩
    exact perform_run (.start hstart) h
  · cases h

/-- The time of `t` runs down, and nothing else goes on. -/
def RunsDown (t : TskIx cfg) (s : Kernel cfg) : Prop :=
  s.runtsk = .null ∧ s.core.timerNesting = 0 ∧ s.links.next .timerQueue = .wtmeb t ∧
    s.links.next (.wtmeb t) = .timerQueue

instance (t : TskIx cfg) (s : Kernel cfg) : Decidable (RunsDown t s) :=
  inferInstanceAs (Decidable (_ ∧ _))

/-- What a tick makes of `system_ticks`. -/
def nextTicks (cfg : Config) (x : SYSTIM) : SYSTIM :=
  if cfg.ticDeno = x.stLow + 1 then { stLow := 0, stHigh := x.stHigh + 1 }
  else { x with stLow := x.stLow + 1 }

/-- The state `n` ticks later. -/
def ticksLater (t : TskIx cfg) (n : Nat) (s : Kernel cfg) : Kernel cfg :=
  (s.setCore fun c =>
    { c with
      systemTicks := (nextTicks cfg)^[n] c.systemTicks
      telemetryWallTicks := c.telemetryWallTicks + BitVec.ofNat 32 n
      telemetryIdleTicks := c.telemetryIdleTicks + BitVec.ofNat 32 n }).setTcb t fun tcb =>
    { tcb with wtmeb := { tcb.wtmeb with count := tcb.wtmeb.count - BitVec.ofNat 32 n } }

theorem ticksLater_zero (t : TskIx cfg) (s : Kernel cfg) : ticksLater t 0 s = s := by
  simp [ticksLater, Kernel.setTcb, Kernel.setCore, Core.setTcb]

/-- The only timer is counted down. -/
theorem timerLoop_one (m : Nat) (hlast : s.links.next (.wtmeb t) = .timerQueue)
    (hcount : (s.core.tcb t).wtmeb.count - 1 ≠ 0) : timerLoop (m + 2) (.wtmeb t) s =
      .ok (s.setTcb t fun tcb =>
        { tcb with wtmeb := { tcb.wtmeb with count := tcb.wtmeb.count - 1 } }) := by
  rw [timerLoop, hlast]
  dsimp only
  rw [if_neg, timerLoop]
  simp only [Kernel.setTcb, Kernel.setCore, Core.setTcb, Function.update_self]
  exact hcount

/-- A tick that does not end the wait. -/
theorem RunsDown.tick (h : RunsDown t s) (hcount : (s.core.tcb t).wtmeb.count - 1 ≠ 0) :
    exec .timerHandler s = .ok (ticksLater t 1 s, .none) := by
  obtain ⟨hrun, hnest, hfirst, hlast⟩ := h
  obtain ⟨m, hm⟩ : ∃ m, cfg.tnumTskid = m + 1 := ⟨cfg.tnumTskid - 1, by have := t.isLt; omega⟩
  have hloop := timerLoop_one (s := s.setCore fun c =>
    { (timerHwEnter c).2 with
      telemetryWallTicks := c.telemetryWallTicks + 1
      telemetryIdleTicks := c.telemetryIdleTicks + 1 }) m hlast hcount
  show (timerHandler s >>= fun s => .ok (s, Ret.none)) = _
  rw [timerHandler_idle hnest hrun, hfirst, hm, hloop]
  show Except.ok (Kernel.setCore timerHwExit _, Ret.none) = _
  congr 2
  simp [timerHwExit, timerHwEnter, ticksLater, Kernel.setTcb, Kernel.setCore, Core.setTcb, hnest,
    nextTicks]

theorem ticksLater_succ (t : TskIx cfg) (n : Nat) (s : Kernel cfg) :
    ticksLater t 1 (ticksLater t n s) = ticksLater t (n + 1) s := by
  have hsub : ∀ x y : BitVec 32, x - y - 1#32 = x - (y + 1#32) := by
    intro x y
    bv_omega
  simp [ticksLater, Kernel.setTcb, Kernel.setCore, Core.setTcb, Function.iterate_succ_apply',
    BitVec.ofNat_add, BitVec.add_assoc, hsub]

theorem RunsDown.later (h : RunsDown t s) (n : Nat) : RunsDown t (ticksLater t n s) := h

@[simp] theorem ticksLater_count (t : TskIx cfg) (n : Nat) (s : Kernel cfg) :
    ((ticksLater t n s).core.tcb t).wtmeb.count = (s.core.tcb t).wtmeb.count - BitVec.ofNat 32 n := by
  simp [ticksLater, Kernel.setTcb, Kernel.setCore, Core.setTcb]

/-- **Ticks come one after the other, as long as the wait does not end.** -/
theorem RunsDown.ticks (semid : Int) (i : SemIx cfg) {pc : WaitPc} (h : RunsDown t s)
    (hpc : pc.isReturned = false) :
    ∀ n : Nat, n < (s.core.tcb t).wtmeb.count.toNat → ∃ tr : WaitTrace cfg,
      Run (· = ⟨s, pc⟩) (fun w l w' => Allowed i t w l.1 ∧ w.step semid t l.1 = some (w', l.2)) tr
        ⟨ticksLater t n s, pc⟩ ∧ slices tr = [] := by
  intro n
  induction n with
  | zero => exact fun _ => ⟨[], .start (by rw [ticksLater_zero]), rfl⟩
  | succ n ih =>
    intro hn
    obtain ⟨tr, hrun, hslices⟩ := ih (by omega)
    have hcount : ((ticksLater t n s).core.tcb t).wtmeb.count - 1 ≠ 0 := by
      rw [ticksLater_count]
      intro h0
      bv_omega
    have htick := (h.later n).tick hcount
    rw [ticksLater_succ] at htick
    have hallowed : Allowed i t ⟨ticksLater t n s, pc⟩ (.other .timerHandler) := by
      refine ⟨hpc, trivial, id, id, fun hr => ?_⟩
      have hnull : (ticksLater t n s).runtsk = .null := (h.later n).1
      cases hnull.symm.trans hr
    have hstep : SemWaiter.step semid t ⟨ticksLater t n s, pc⟩ (.other .timerHandler) =
        some (⟨ticksLater t (n + 1) s, pc⟩, some (.timerHandler, .none)) := by
      unfold SemWaiter.step
      simp only [htick]
    refine ⟨_, hrun.step (l := (.other .timerHandler, some (.timerHandler, .none)))
      ⟨hallowed, hstep⟩, ?_⟩
    rw [slices_cons_none _ _ _ _ rfl, hslices]

/-- A task that begins to wait for 15 seconds, for a semaphore without resources. -/
def longWait : Option (WaitTrace smallConfig × SemWaiter smallConfig) :=
  enterAndGoOn 1 0 0 15000 (startTasks [1] ++ [.creSem 1 ⟨0, 0, 1⟩]) [.own, .own] zeroed

/-- The first slice is over, and a handler signals in the second one. -/
def secondSlice : List (WaitAct smallConfig) :=
  [.other .timerHandler, .other .dispatch, .own, .own, .other .timerHandler, .other (.isigSem 1),
    .other .dispatch, .own]

/-- A wait of two slices that is ended by a signal. -/
theorem sem_wait_ms_exact_two : ∃ (tr : WaitTrace smallConfig) (w : SemWaiter smallConfig),
    SemWaitRun 1 0 0 15000 tr w ∧ slices tr = [5000, 10000] ∧ w.pc = .returned .ok ∧
      handed 0 0 tr = 1 ∧ waitedTicks 0 0 tr < 15000 := by
  have hbegin : longWait.any (fun x => decide (RunsDown 0 x.2.kernel ∧ x.2.pc.isReturned = false ∧
      (x.2.kernel.core.tcb 0).wtmeb.count = 10000 ∧ slices x.1 = [10000])) = true := by
    decide +kernel
  have hend : (longWait.bind fun x => (perform (SemWaiter.step 1 0) (Allowed 0 0) secondSlice []
      ⟨ticksLater 0 9999 x.2.kernel, x.2.pc⟩).map fun y =>
        decide (slices y.1 = [5000] ∧ y.2.pc = .returned .ok)) = some true := by
    decide +kernel
  obtain ⟨⟨tr₁, w₁⟩, hx, hlater⟩ := Option.bind_eq_some_iff.mp hend
  rw [hx] at hbegin
  obtain ⟨hdown, hpc, hcount, hslices₁⟩ := of_decide_eq_true hbegin
  obtain ⟨⟨tr₃, w₃⟩, hy, hQ⟩ := Option.map_eq_some_iff.mp hlater
  obtain ⟨hslices₃, hret⟩ := of_decide_eq_true hQ
  have hshort : 9999 < (w₁.kernel.core.tcb 0).wtmeb.count.toNat := by
    rw [hcount]
    decide
  obtain ⟨tr₂, hrun₂, hslices₂⟩ := hdown.ticks 1 0 hpc 9999 hshort
  have hrun := ((enterAndGoOn_run hx).append hrun₂).append (perform_run (.start rfl) hy)
  have hsliced := sem_wait_ms_exact (show getSemcb 1 = .ok 0 from rfl) (by decide) hrun
  refine ⟨_, w₃, hrun, ?_, hret, ?_⟩
  · simp only [slices, List.filterMap_append] at hslices₁ hslices₂ hslices₃ ⊢
    rw [hslices₁, hslices₂, hslices₃]
    rfl
  · rcases hsliced.result _ hret with ⟨-, hhand, hticks⟩ | ⟨htmout, -⟩
    · exact ⟨hhand, hticks⟩
    · cases htmout

end

end Ittrium.Net
