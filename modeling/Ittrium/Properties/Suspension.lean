import Ittrium.Properties.Timeouts

/-!
# Suspension

A state of a live task stands for two conditions: whether it is suspended, which `suscnt` counts,
and whether it waits. `sus_tsk` takes every task that is not ready for a waiting one, also one that
is suspended.

* `Orthogonal tr s t` — the state of `t` is that of the two conditions
* `nestedSuspension tskid n` — a task is suspended `n` times, then resumed `n` times
* `suspension_exact` — **as long as no task is suspended that is so already and does not wait, all
  states are those of the two conditions; a ready task survives one suspension and no two**
-/

namespace Ittrium

open Infra

variable {cfg : Config} {t u : TskIx cfg} {tr : Trace cfg} {s s' : Kernel cfg}
  {a a' : Spec.Model cfg} {tskid : Int} {n k : Nat}

/-! ## The two conditions -/

/-- The state of `t` is that of the two conditions: suspended, and waiting. -/
structure Orthogonal (tr : Trace cfg) (s : Kernel cfg) (t : TskIx cfg) : Prop where
  rdy : (s.core.tcb t).state = .rdy ↔ (s.core.tcb t).suscnt = 0 ∧ waited t tr = none
  wai : (s.core.tcb t).state = .wai ↔ (s.core.tcb t).suscnt = 0 ∧ waited t tr ≠ none
  sus : (s.core.tcb t).state = .sus ↔ 0 < (s.core.tcb t).suscnt ∧ waited t tr = none
  was : (s.core.tcb t).state = .was ↔ 0 < (s.core.tcb t).suscnt ∧ waited t tr ≠ none

/-- `t` sleeps, is delayed or stands in the queue of an object. -/
def PendingWait (s : Kernel cfg) (t : TskIx cfg) : Prop :=
  (s.core.tcb t).tskwait ≠ .none ∨ ∃ o, s.links.Reaches (.waitq o) (.qnode t)

/-- The count and the wait of a live task give its state. -/
theorem TimeInv.orthogonal (h : TimeInv tr a) (hm : Models s a)
    (hn : (s.core.tcb t).state ≠ .noexs) (hd : (s.core.tcb t).state ≠ .dmt) :
    Orthogonal tr s t := by
  have hwait : (a.core.tcb t).state = .wai ∨ (a.core.tcb t).state = .was ↔ waited t tr ≠ none := by
    rw [← Stat.waiting_iff, h.waiting_iff, Option.isSome_iff_ne_none]
  rw [hm.refines.core] at hn hd
  obtain ⟨hcnt, hsus⟩ := (hm.inv.task t).suscnt hn
  have hrun := (hm.inv.task t).notRun
  constructor <;> rw [hm.refines.core] <;>
    cases hst : (a.core.tcb t).state <;> simp_all <;> omega

/-- The queue of an object is where its waiting tasks are. -/
theorem Models.reaches_waitq (hm : Models s a) (o : ObjId cfg) :
    s.links.Reaches (.waitq o) (.qnode t) ↔ t ∈ a.queue (.waitq o) := by
  by_cases ho : (s.core.objcb o).state = .noexs
  · rw [hm.refines.core] at ho
    rw [hm.inv.toSettled.waitq_eq_nil ho]
    rw [← hm.refines.core] at ho
    exact ⟨fun hr => absurd hr (hm.waitq_noexs ho t), fun hmem => by cases hmem⟩
  · rw [(hm.ring_waitq ho).reaches_iff]
    simp

/-- Who waits is found to wait, and nobody else. -/
theorem TimeInv.pendingWait (h : TimeInv tr a) (hm : Models s a)
    (hn : (s.core.tcb t).state ≠ .noexs) : PendingWait s t ↔ waited t tr ≠ none := by
  unfold PendingWait
  simp only [hm.reaches_waitq, (hm.inv.task t).waitq]
  rw [hm.refines.core] at hn ⊢
  rw [(hm.inv.task t).tskwait hn, ← Option.isSome_iff_ne_none, ← h.waiting_iff]
  constructor
  · rintro (⟨hw, -⟩ | ⟨-, hw, -⟩) <;> exact hw
  · intro hw
    cases ho : (a.core.tcb t).waitObj with
    | none => exact Or.inl ⟨hw, rfl⟩
    | some o => exact Or.inr ⟨o, hw, rfl⟩

/-- A ready task is in the line of its priority. -/
theorem Models.reaches_ready (hm : Models s a) (ht : (s.core.tcb t).state = .rdy) :
    s.links.Reaches (.priq (s.core.tcb t).tskpri) (.qnode t) := by
  rw [hm.refines.core] at ht ⊢
  have hp : Spec.LinePri cfg (a.core.tcb t).tskpri := (hm.inv.task t).tskpri (by rw [ht]; decide)
  have hring := hm.refines.ring (l := .ready (a.core.tcb t).tskpri) ⟨hp, fun hf => hf⟩
  refine hring.reaches_iff.mpr (List.mem_cons_of_mem _ (List.mem_map_of_mem ?_))
  exact ((hm.inv.task t).ready _).mpr ⟨ht, rfl⟩

/-! ## Nested suspension -/

/-- Any call at all. -/
def AnyCall (_ : Kernel cfg) (_ : Call cfg) : Prop := True

instance (s : Kernel cfg) (c : Call cfg) : Decidable (AnyCall s c) := .isTrue trivial

/-- A task is suspended `n` times, then resumed `n` times. -/
def nestedSuspension (tskid : Int) (n : Nat) : List (Call cfg) :=
  List.replicate n (.susTsk tskid) ++ List.replicate n (.rsmTsk tskid)

/-- All calls have returned `E_OK`. -/
def AllOk (tr : Trace cfg) : Prop := ∀ e ∈ tr, e.label.2 = .er .ok

/-- The same call again and again, each time with `E_OK`. -/
theorem runCalls_replicate {P : Nat → Kernel cfg → Prop} {c : Call cfg}
    (hstep : ∀ k < n, ∀ s, P k s → ∃ s', exec c s = .ok (s', .er .ok) ∧ P (k + 1) s')
    (hP : P 0 s) (htr : AllOk tr) :
    ∃ tr' s', P n s' ∧ AllOk tr' ∧ ∀ cs, runCalls AnyCall (List.replicate n c ++ cs) tr s =
      runCalls AnyCall cs tr' s' := by
  induction n generalizing P s tr with
  | zero => exact ⟨tr, s, hP, htr, fun _ => rfl⟩
  | succ n ih =>
    obtain ⟨s₁, hs₁, hP₁⟩ := hstep 0 (by omega) s hP
    have htr₁ : AllOk (⟨s, (c, .er .ok), s₁⟩ :: tr) := by
      intro e he
      rcases List.mem_cons.mp he with rfl | he
      · rfl
      · exact htr e he
    obtain ⟨tr', s', hP', htr', hrun⟩ :=
      ih (P := fun k => P (k + 1)) (fun k hk => hstep (k + 1) (by omega)) hP₁ htr₁
    refine ⟨tr', s', hP', htr', fun cs => ?_⟩
    rw [List.replicate_succ, List.cons_append, runCalls, if_pos (show AnyCall s c from trivial),
      hs₁]
    exact hrun cs

/-- State and count of a task. -/
def Stands (t : TskIx cfg) (st : Stat) (k : Int) (s : Kernel cfg) : Prop :=
  (s.core.tcb t).state = st ∧ (s.core.tcb t).suscnt = k

theorem badTskid_of_getTcb (h : getTcb tskid = .ok t) :
    badTskid tskid s = false ∧ getTcbSelf tskid s = .ok t := by
  obtain ⟨-, hpos, hle⟩ := id_of_entryOf h
  have hself : tskid ≠ tskSelf := by
    unfold tskSelf
    omega
  unfold Config.tnumTskid at hle
  refine ⟨?_, by rw [getTcbSelf, if_neg hself, h]⟩
  simp [badTskid, hself]
  omega

/-- The state `sus_tsk` leaves a live task in. -/
def susState (st : Stat) : Stat := if st = .run ∨ st = .rdy then .sus else .was

/-- What `sus_tsk` does with a live task. -/
def suspended (t : TskIx cfg) (s : Kernel cfg) : Kernel cfg :=
  let s := s.setTcb t fun tcb => { tcb with suscnt := tcb.suscnt + 1 }
  if (s.core.tcb t).state = .run ∨ (s.core.tcb t).state = .rdy then
    taskMakeUnready t (s.setTcb t fun tcb => { tcb with state := .sus })
  else s.setTcb t fun tcb => { tcb with state := .was }

theorem suspended_stands {st : Stat} {k : Int} (hs : Stands t st k s) :
    Stands t (susState st) (k + 1) (suspended t s) := by
  obtain ⟨rfl, rfl⟩ := hs
  unfold suspended susState Stands
  simp only [Kernel.setTcb, Kernel.setCore, Core.setTcb_self]
  split <;> simp [taskMakeUnready_core, Core.setTcb_self]

theorem susTsk_stands {st : Stat} {k : Int} (h : getTcb tskid = .ok t) (hs : Stands t st k s)
    (hn : st ≠ .noexs) (hd : st ≠ .dmt) (hk : k ≠ cfg.tmaxActcnt) :
    ∃ s', exec (.susTsk tskid) s = .ok (s', .er .ok) ∧ Stands t (susState st) (k + 1) s' := by
  obtain ⟨hbad, hself⟩ := badTskid_of_getTcb (s := s) h
  refine ⟨dispatch (suspended t s), ?_, suspended_stands hs⟩
  obtain ⟨rfl, rfl⟩ := hs
  have he : exec (.susTsk tskid) s = (if badTskid tskid s then .ok (s, .er .id) else do
      let t ← getTcbSelf tskid s
      if (s.core.tcb t).state = .noexs then .ok (dispatch s, .er .noexs)
      else if (s.core.tcb t).state = .dmt then .ok (dispatch s, .er .obj)
      else if (cfg.tmaxActcnt : Int) = (s.core.tcb t).suscnt then .ok (dispatch s, .er .qovr)
      else .ok (dispatch (suspended t s), .er .ok)) := rfl
  rw [he, if_neg (by simp [hbad]), hself]
  show (if _ then _ else _) = _
  rw [if_neg hn, if_neg hd, if_neg (Ne.symm hk)]

/-- What `rsm_tsk` does with a suspended task. -/
def resumed (t : TskIx cfg) (s : Kernel cfg) : Kernel cfg :=
  let s := s.setTcb t fun tcb => { tcb with suscnt := tcb.suscnt - 1 }
  if (s.core.tcb t).suscnt = 0 then
    if (s.core.tcb t).state = .was then s.setTcb t fun tcb => { tcb with state := .wai }
    else taskMakeReady t s
  else s

/-- The state the last of `k` resumptions leaves a task in, and each other one. -/
def rsmState (st : Stat) (k : Int) : Stat :=
  if k = 1 then if st = .was then .wai else .rdy else st

theorem resumed_stands {st : Stat} {k : Int} (hs : Stands t st k s) :
    Stands t (rsmState st k) (k - 1) (resumed t s) := by
  obtain ⟨rfl, rfl⟩ := hs
  unfold resumed rsmState Stands
  simp only [Kernel.setTcb, Kernel.setCore, Core.setTcb_self]
  by_cases hk : (s.core.tcb t).suscnt = 1
  · rw [if_pos (by omega), if_pos hk]
    split <;> simp [taskMakeReady_core, Core.setTcb_self]
  · rw [if_neg (by omega), if_neg hk]
    simp

theorem rsmTsk_stands {st : Stat} {k : Int} (h : getTcb tskid = .ok t) (hs : Stands t st k s)
    (hst : st = .sus ∨ st = .was) :
    ∃ s', exec (.rsmTsk tskid) s = .ok (s', .er .ok) ∧ Stands t (rsmState st k) (k - 1) s' := by
  obtain ⟨hbad, hself⟩ := badTskid_of_getTcb (s := s) h
  refine ⟨dispatch (resumed t s), ?_, resumed_stands hs⟩
  obtain ⟨rfl, rfl⟩ := hs
  have he : exec (.rsmTsk tskid) s = (if badTskid tskid s then .ok (s, .er .id) else do
      let t ← getTcbSelf tskid s
      if (s.core.tcb t).state = .noexs then .ok (dispatch s, .er .noexs)
      else if (s.core.tcb t).state ≠ .sus ∧ (s.core.tcb t).state ≠ .was then
        .ok (dispatch s, .er .obj)
      else .ok (dispatch (resumed t s), .er .ok)) := rfl
  rw [he, if_neg (by simp [hbad]), hself]
  show (if _ then _ else _) = _
  rw [if_neg (by rcases hst with hst | hst <;> rw [hst] <;> decide),
    if_neg (by rcases hst with hst | hst <;> simp [hst])]

/-- A ready task after `k` suspensions. -/
def afterSus (k : Nat) : Stat := if k = 0 then .rdy else if k = 1 then .sus else .was

/-- A task that has been suspended `n` times, after `j` resumptions. -/
def afterRsm (n j : Nat) : Stat :=
  if j < n then afterSus n else if n ≤ 1 then .rdy else .wai

/-- **`n` suspensions and `n` resumptions leave a ready task ready, or waiting for nothing.** -/
theorem runCalls_nested (h : getTcb tskid = .ok t) (hs : Stands t .rdy 0 s)
    (hn : n ≤ cfg.tmaxActcnt) :
    ∃ tr s', runCalls AnyCall (nestedSuspension tskid n) [] s = some (tr, s') ∧ AllOk tr ∧
      Stands t (if n ≤ 1 then .rdy else .wai) 0 s' := by
  -- the counter goes up by one with each suspension, and down with each resumption
  have hsus : ∀ k < n, ∀ s : Kernel cfg, Stands t (afterSus k) k s → ∃ s',
      exec (.susTsk tskid) s = .ok (s', .er .ok) ∧
        Stands t (afterSus (k + 1)) (k + 1 : Nat) s' := by
    intro k hk s hs
    have hlive : afterSus k ≠ .noexs ∧ afterSus k ≠ .dmt ∧
        susState (afterSus k) = afterSus (k + 1) := by
      unfold afterSus susState
      rcases k with _ | _ | k <;> simp
    obtain ⟨s', he, hs'⟩ := susTsk_stands h hs hlive.1 hlive.2.1 (by omega)
    exact ⟨s', he, hlive.2.2 ▸ by exact_mod_cast hs'⟩
  have hrsm : ∀ j < n, ∀ s : Kernel cfg, Stands t (afterRsm n j) ((n : Int) - j) s → ∃ s',
      exec (.rsmTsk tskid) s = .ok (s', .er .ok) ∧
        Stands t (afterRsm n (j + 1)) ((n : Int) - (j + 1 : Nat)) s' := by
    intro j hj s hs
    have hst : (afterRsm n j = .sus ∨ afterRsm n j = .was) ∧
        rsmState (afterRsm n j) ((n : Int) - j) = afterRsm n (j + 1) := by
      unfold afterRsm afterSus rsmState
      rw [if_pos hj, if_neg (by omega)]
      by_cases h1 : n = 1
      · subst h1
        obtain rfl : j = 0 := by omega
        simp
      · rw [if_neg h1]
        by_cases hl : j + 1 = n
        · simp [show (n : Int) - j = 1 by omega, hl, show ¬ n ≤ 1 by omega]
        · simp [show ¬ (n : Int) - j = 1 by omega, show j + 1 < n by omega]
    obtain ⟨s', he, hs'⟩ := rsmTsk_stands h hs hst.1
    refine ⟨s', he, ?_⟩
    rw [← hst.2, show (n : Int) - (j + 1 : Nat) = (n : Int) - j - 1 by omega]
    exact hs'
  obtain ⟨tr₁, s₁, hs₁, htr₁, hrun₁⟩ := runCalls_replicate hsus hs
    (show AllOk ([] : Trace cfg) from fun e he => by cases he)
  -- the resumptions begin where the suspensions end
  have hbetween : afterRsm n 0 = afterSus n := by
    unfold afterRsm afterSus
    rcases n with _ | n <;> simp
  obtain ⟨tr₂, s₂, hs₂, htr₂, hrun₂⟩ := runCalls_replicate hrsm
    (by simpa [hbetween] using hs₁) htr₁
  refine ⟨tr₂, s₂, ?_, htr₂, ?_⟩
  · rw [nestedSuspension, hrun₁, ← List.append_nil (List.replicate n _), hrun₂]
    rfl
  · simpa [afterRsm] using hs₂

/-- A single suspension of a ready task is one the invariant survives. -/
theorem Models.nestedSuspension (hm : Models s a) (h : getTcb tskid = .ok t)
    (ht : (s.core.tcb t).state = .rdy) (hn : n ≤ 1)
    (he : runCalls AnyCall (nestedSuspension tskid n) [] s = some (tr, s')) :
    ∃ a', Models s' a' := by
  obtain rfl | rfl : n = 0 ∨ n = 1 := by omega
  · cases he
    exact ⟨a, hm⟩
  · have hsound : SoundCall s (.susTsk tskid) := by
      intro u hu hsus
      rw [h] at hu
      cases hu
      rw [ht] at hsus
      cases hsus
    simp only [Ittrium.nestedSuspension, List.replicate_one, List.cons_append, List.nil_append,
      runCalls] at he
    split at he
    · split at he
      · next s₁ r₁ hx₁ =>
        obtain ⟨a₁, -, hm₁⟩ := hm.step hsound hx₁
        split at he
        · split at he
          · next s₂ r₂ hx₂ =>
            obtain ⟨a₂, -, hm₂⟩ := hm₁.step (c := .rsmTsk tskid) trivial hx₂
            cases he
            exact ⟨a₂, hm₂⟩
          · cases he
        · cases he
      · cases he
    · cases he

/-! ## Runs -/

/-- **In every state reached by calls that suspend no suspended task unless it waits, the state of
a live task is that of its suspension count and its wait. Suspending a ready task `n` times and
resuming it as often leaves it ready, and in its line, if `n` is at most one, and no other time.** -/
theorem suspension_exact (h : RunOf SoundCall tr s) :
    (∀ t, (s.core.tcb t).state ≠ .noexs → (s.core.tcb t).state ≠ .dmt →
      Orthogonal tr s t ∧ (PendingWait s t ↔ waited t tr ≠ none)) ∧
    (∀ t, (s.core.tcb t).state = .rdy →
      s.links.Reaches (.priq (s.core.tcb t).tskpri) (.qnode t)) ∧
    ∀ tskid t, getTcb tskid = .ok t → (s.core.tcb t).state = .rdy → ∀ n ≤ cfg.tmaxActcnt,
      ∃ tr' s', runCalls AnyCall (nestedSuspension tskid n) [] s = some (tr', s') ∧ AllOk tr' ∧
        ((s'.core.tcb t).state = .rdy ↔ n ≤ 1) ∧
        (n ≤ 1 → s'.links.Reaches (.priq (s'.core.tcb t).tskpri) (.qnode t)) := by
  obtain ⟨a, hm, hT⟩ := h.timeInv
  refine ⟨fun t hn hd => ⟨hT.orthogonal hm hn hd, hT.pendingWait hm hn⟩,
    fun t ht => hm.reaches_ready ht, fun tskid t hid ht n hn => ?_⟩
  -- a ready task has not been suspended
  have hcnt : (s.core.tcb t).suscnt = 0 :=
    ((hT.orthogonal hm (by rw [ht]; decide) (by rw [ht]; decide)).rdy.mp ht).1
  obtain ⟨tr', s', he, hok, hst, -⟩ := runCalls_nested hid ⟨ht, hcnt⟩ hn
  have hiff : (s'.core.tcb t).state = .rdy ↔ n ≤ 1 := by
    rw [hst]
    split <;> simp_all
  refine ⟨tr', s', he, hok, hiff, fun h1 => ?_⟩
  obtain ⟨a', hm'⟩ := hm.nestedSuspension hid ht h1 he
  exact hm'.reaches_ready (hiff.mpr h1)

/-- A suspended task that waited, one that sleeps, and one that is ready. -/
theorem suspension_exact_three : ∃ (tr : Trace smallConfig) (s : Kernel smallConfig),
    Orthogonal tr s 0 ∧ Orthogonal tr s 1 ∧ Orthogonal tr s 2 ∧
      (s.core.tcb 0).state = .was ∧ (s.core.tcb 0).suscnt = 2 ∧ (s.core.tcb 1).state = .wai ∧
      (s.core.tcb 2).state = .rdy := by
  obtain ⟨tr, s, h, h0, hcnt, h1, h2⟩ := exists_runOf (C := SoundCall)
    (Q := fun _ s => (s.core.tcb 0).state = .was ∧ (s.core.tcb 0).suscnt = 2 ∧
      (s.core.tcb 1).state = .wai ∧ (s.core.tcb 2).state = .rdy)
    (startTasks [1, 2, 3] ++ [.dispatch, .slpTsk, .slpTsk, .susTsk 1, .susTsk 1]) zeroed
    (by decide +kernel)
  obtain ⟨hall, -, -⟩ := suspension_exact h
  exact ⟨tr, s, (hall 0 (by rw [h0]; decide) (by rw [h0]; decide)).1,
    (hall 1 (by rw [h1]; decide) (by rw [h1]; decide)).1,
    (hall 2 (by rw [h2]; decide) (by rw [h2]; decide)).1, h0, hcnt, h1, h2⟩

/-- A ready task is suspended twice and resumed twice: it then waits, for nothing, and no task is
to run. -/
theorem suspended_twice : ∃ (tr : Trace smallConfig) (s : Kernel smallConfig),
    RunOf AnyCall tr s ∧ (tr.take 4).map Event.label = [(.rsmTsk 1, .er .ok), (.rsmTsk 1, .er .ok),
      (.susTsk 1, .er .ok), (.susTsk 1, .er .ok)] ∧
    (tr[4]?.map fun e => (e.post.core.tcb 0).state) = some .rdy ∧
    (s.core.tcb 0).state = .wai ∧ (s.core.tcb 0).suscnt = 0 ∧ waited 0 tr = none ∧
    s.schedtsk = .null ∧ ¬ Orthogonal tr s 0 := by
  obtain ⟨tr, s, h, hlabels, hpre, hst, hcnt, hwait, hsched⟩ := exists_runOf (C := AnyCall)
    (Q := fun tr s => (tr.take 4).map Event.label = [(.rsmTsk 1, .er .ok), (.rsmTsk 1, .er .ok),
      (.susTsk 1, .er .ok), (.susTsk 1, .er .ok)] ∧
      (tr[4]?.map fun e => (e.post.core.tcb 0).state) = some .rdy ∧
      (s.core.tcb 0).state = .wai ∧ (s.core.tcb 0).suscnt = 0 ∧ waited 0 tr = none ∧
      s.schedtsk = .null)
    (startTasks [1] ++ [.susTsk 1, .susTsk 1, .rsmTsk 1, .rsmTsk 1]) zeroed (by decide +kernel)
  exact ⟨tr, s, h, hlabels, hpre, hst, hcnt, hwait, hsched, fun ho => (ho.wai.mp hst).2 hwait⟩

end Ittrium
