import Ittrium.Properties.Timeouts

/-!
# Where the nodes are

Removing a node from a ring leaves its own cells as they were. None of these is ever followed:
each node is linked where its control block says and nowhere else.

* `Unsuspending` — the calls of the applications that suspend no task and change no priority
* `Belongs tr s r x` — whether `x` has to be on the ring of `r`
* `Structured tr s E` — the rings are well formed and disjoint, and their members `E` the nodes
  that belong there; the ready queue, `schedtsk` and `runtsk` agree with them
* `structure_exact` — **this holds of every state reached**
-/

namespace Ittrium

open Infra

variable {cfg : Config} {t u : TskIx cfg} {tr : Trace cfg} {s s' : Kernel cfg}
  {a a' : Spec.Model cfg} {c : Call cfg} {r : Ret cfg}

/-! ## Rings -/

/-- No task is suspended, and no priority changed. -/
def Unsuspending (s : Kernel cfg) (c : Call cfg) : Prop :=
  SoundCall s c ∧
    match c with
    | .chgPri _ _ | .susTsk _ | .rsmTsk _ => False
    | _ => True

instance (s : Kernel cfg) (c : Call cfg) : Decidable (Unsuspending s c) := by
  apply @Call.casesOn cfg (fun c => Decidable (Unsuspending s c)) c <;> intros <;>
    (change Decidable (SoundCall s _ ∧ _); infer_instance)

/-- The heads of the rings. The queue of a semaphore that does not exist is in the free list. -/
def IsHead (s : Kernel cfg) : Node cfg → Prop
  | .priq p => Spec.LinePri cfg p
  | .waitq (.sem i) => (s.core.semcb i).obj.state ≠ .noexs
  | .waitq _ | .timerQueue | .freeTcb | .freeSemcb => True
  | _ => False

/-- The timeout of the call in which `t` waits. -/
def waitTimeout (t : TskIx cfg) (tr : Trace cfg) : Option TMO :=
  (waited t tr).bind fun w => Call.timeout w.1

/-- The node has to be on the ring of the head: a task in the line of its priority if it is ready,
in the queue of the object it waits for, in the free list if it does not exist; its timer in the
timer queue if it waits with a timeout. -/
def Belongs (tr : Trace cfg) (s : Kernel cfg) : Node cfg → Node cfg → Prop
  | .priq p, .qnode t => (s.core.tcb t).state = .rdy ∧ (s.core.tcb t).tskpri = p
  | .waitq o, .qnode t => (s.core.tcb t).state = .wai ∧ (s.core.tcb t).waitObj = some o
  | .freeTcb, .qnode t => (s.core.tcb t).state = .noexs
  | .timerQueue, .wtmeb t =>
    (s.core.tcb t).state = .wai ∧ ∃ k, waitTimeout t tr = some k ∧ k ≠ tmoFevr
  | .freeSemcb, .waitq (.sem i) => (s.core.semcb i).obj.state = .noexs
  | _, _ => False

/-- **Every node is where it belongs**, `E` being the members of the rings. -/
structure Structured (tr : Trace cfg) (s : Kernel cfg) (E : Node cfg → List (Node cfg)) :
    Prop where
  rings : RingFamily s.links (IsHead s) E
  members : ∀ r, IsHead s r → ∀ x, x ∈ E r ↔ Belongs tr s r x
  /-- A ready task has a line. -/
  ready : ∀ t, (s.core.tcb t).state = .rdy → IsHead s (.priq (s.core.tcb t).tskpri)
  /-- A waiting task without an object sleeps or is delayed. -/
  waiting : ∀ t, (s.core.tcb t).state = .wai → (s.core.tcb t).waitObj = none →
    (s.core.tcb t).tskwait ≠ .none
  /-- An object with a queue of tasks exists. -/
  existing : ∀ o t, IsHead s (.waitq o) → .qnode t ∈ E (.waitq o) →
    (s.core.objcb o).state ≠ .noexs
  /-- The bitmap marks the lines with tasks. -/
  bitmap : ∀ i : Nat, i < cfg.numBitmap → ∀ k, k < 32 →
    ((s.rdyq.bitmap i).getLsbD k ↔ k < cfg.bitmapsz ∧ IsHead s (.priq (i * cfg.bitmapsz + k)) ∧
      E (.priq (i * cfg.bitmapsz + k)) ≠ [])
  /-- The task to run is the first one of the most urgent line. -/
  schedtsk : (s.schedtsk = .null ∧ ∀ t, (s.core.tcb t).state ≠ .rdy) ∨
    ∃ t, s.schedtsk = .qnode t ∧ (s.core.tcb t).state = .rdy ∧
      (E (.priq (s.core.tcb t).tskpri)).head? = some (.qnode t) ∧
      ∀ u, (s.core.tcb u).state = .rdy → (s.core.tcb t).tskpri ≤ (s.core.tcb u).tskpri
  runtsk : s.runtsk = .null ∨ ∃ t, s.runtsk = .qnode t ∧ (s.core.tcb t).state = .rdy

/-! ## Runs -/

/-- No task is suspended. -/
theorem Moves.unsuspended (hm : Moves Unsuspending s a c r s' a')
    (h : ∀ t, ¬ Spec.Suspended (a.core.tcb t).state) (t : TskIx cfg) :
    ¬ Spec.Suspended (a'.core.tcb t).state := by
  have hscope : ¬ (Spec.Call.scope a.core c).suspends := by
    have hc := hm.call.2
    cases c with
    | susTsk tskid => exact hc.elim
    | _ => exact id
  have hframe := Spec.exec_frame hm.pre.inv hm.sound _ hm.spec
  exact fun ht => h t (hframe.suspended hscope t ht)

theorem RunOf.unsuspended (h : RunOf Unsuspending tr s) :
    ∃ a, Models s a ∧ TimeInv tr a ∧ ∀ t, ¬ Spec.Suspended (a.core.tcb t).state := by
  refine RunOf.lift (P := fun tr a => TimeInv tr a ∧ ∀ t, ¬ Spec.Suspended (a.core.tcb t).state)
    (fun _ _ h => h.1) (fun m => ?_)
    (fun _ _ _ _ _ _ _ hm h => ⟨h.1.step hm, hm.unsuspended h.2⟩) h
  have hstate : ∀ t, ((Refine.initial m).core.tcb t).state = .noexs := Refine.boot_task m
  refine ⟨⟨fun t _ hw => ?_, fun t c n h => by cases h⟩, fun t ht => ?_⟩
  · rw [hstate] at hw
    cases hw
  · rw [hstate] at ht
    rcases ht with ht | ht <;> cases ht

/-! ## The structure over lists -/

theorem heads_of_isHead (hm : Models s a) {x : Node cfg} (hx : IsHead s x) :
    Refine.heads a x := by
  cases x with
  | waitq o =>
    cases o with
    | sem i =>
      -- the queue of a semaphore that does not exist is a member of the free list
      intro hi
      rw [hm.inv.mem_freeSem, ← hm.refines.core] at hi
      exact hx hi
    | _ => trivial
  | qnode t => exact hx.elim
  | wtmeb t => exact hx.elim
  | _ => exact hx

/-- A waiting task that is not suspended. -/
theorem waiting_iff_wai {st : Stat} (h : ¬ Spec.Suspended st) : st.waiting ↔ st = .wai := by
  rw [Stat.waiting_iff]
  constructor
  · rintro (h' | h')
    · exact h'
    · exact absurd (Or.inr h') h
  · exact Or.inl

/-- Who waits with a timeout has its timer in the queue, and nobody else. -/
theorem TimeInv.mem_timer (h : TimeInv tr a) (ha : Spec.Inv a) (t : TskIx cfg) :
    t ∈ a.queue .timer ↔
      (a.core.tcb t).state.waiting ∧ ∃ k, waitTimeout t tr = some k ∧ k ≠ tmoFevr := by
  unfold waitTimeout
  -- the trace tells whether `t` waits, and which call made it wait
  cases hw : waited t tr with
  | none =>
    have hidle := h.idle t hw
    constructor
    · exact fun hm => absurd ((ha.task t).timer hm).1 hidle
    · exact fun hm => absurd hm.1 hidle
  | some w =>
    have hc := h.clocked t w.1 w.2 hw
    simp only [Option.bind_some]
    cases hk : Call.timeout w.1 with
    | none =>
      have hn : Call.ticks w.1 = none := by rw [Call.ticks, hk]; rfl
      refine ⟨fun hm => absurd hm (hc.forever hn), ?_⟩
      rintro ⟨-, k, hk, -⟩
      cases hk
    | some k =>
      have hticks : Call.ticks w.1 = expiry k := by rw [Call.ticks, hk]; rfl
      cases hx : expiry k with
      | none =>
        refine ⟨fun hm => absurd hm (hc.forever (hticks.trans hx)), ?_⟩
        rintro ⟨-, k', he, hne⟩
        cases he
        exact absurd (expiry_eq_none.mp hx) hne
      | some N =>
        refine ⟨fun _ => ⟨hc.waiting, k, rfl, ?_⟩, fun _ => (hc.count N (hticks.trans hx)).1⟩
        exact (count_of_expiry hx).2.2.1

/-- The members of a ring are the nodes that belong there. -/
theorem Models.mem_elems (hm : Models s a) (hT : TimeInv tr a)
    (hsus : ∀ t, ¬ Spec.Suspended (a.core.tcb t).state) {q : Node cfg} (hq : IsHead s q)
    (x : Node cfg) : x ∈ Refine.elems a q ↔ Belongs tr s q x := by
  have htask := hm.inv.task
  have hwai : ∀ t, (s.core.tcb t).state = .wai ↔ (a.core.tcb t).state.waiting := fun t => by
    rw [hm.refines.core, waiting_iff_wai (hsus t)]
  -- the lines of tasks by their `qnode`
  have hline : ∀ (l : List (TskIx cfg)) (P : TskIx cfg → Prop), (∀ t, t ∈ l ↔ P t) →
      (x ∈ l.map Node.qnode ↔ ∃ t, x = .qnode t ∧ P t) := by
    intro l P hP
    simp only [List.mem_map, hP]
    constructor
    · rintro ⟨t, ht, he⟩
      exact ⟨t, he.symm, ht⟩
    · rintro ⟨t, he, ht⟩
      exact ⟨t, ht, he.symm⟩
  cases q with
  | priq p =>
    refine (hline _ _ fun t => (htask t).ready p).trans ?_
    cases x <;> simp [Belongs, hm.refines.core]
  | waitq o =>
    refine (hline _ _ fun t => (htask t).waitq o).trans ?_
    cases x <;> simp [Belongs, hwai, ← hm.refines.core]
  | freeTcb =>
    refine (hline _ _ fun t => (htask t).free).trans ?_
    cases x <;> simp [Belongs, hm.refines.core]
  | timerQueue =>
    simp only [Refine.elems, List.mem_map]
    cases x <;> simp [Belongs, hwai, hT.mem_timer hm.inv]
  | freeSemcb =>
    simp only [Refine.elems, List.mem_map]
    cases x with
    | waitq o => cases o <;> simp [Belongs, hm.inv.mem_freeSem, hm.refines.core]
    | _ => simp [Belongs]
  | null => exact hq.elim
  | qnode t => exact hq.elim
  | wtmeb t => exact hq.elim

/-! ## Scheduling -/

/-- The first task of the most urgent line, over lists. -/
theorem top_cases (ha : Spec.Settled a) :
    (a.top = none ∧ ∀ t, (a.core.tcb t).state ≠ .rdy) ∨
    ∃ t, a.top = some t ∧ (a.core.tcb t).state = .rdy ∧
      (a.queue (.ready (a.core.tcb t).tskpri)).head? = some t ∧
      ∀ u, (a.core.tcb u).state = .rdy → (a.core.tcb t).tskpri ≤ (a.core.tcb u).tskpri := by
  have hready : ∀ u, (a.core.tcb u).state = .rdy →
      Spec.LinePri cfg (a.core.tcb u).tskpri ∧ u ∈ a.queue (.ready (a.core.tcb u).tskpri) :=
    fun u hu => ⟨(ha.task u).tskpri (by rw [hu]; decide), ((ha.task u).ready _).mpr ⟨hu, rfl⟩⟩
  unfold Spec.Model.top Spec.topOf
  rcases Refine.topPri_cases fun p => a.queue (.ready p) with ⟨hall, hmax⟩ | ⟨hl, hne, hmin⟩
  · refine Or.inl ⟨if_pos hmax, fun t ht => ?_⟩
    obtain ⟨hp, hmem⟩ := hready t ht
    rw [hall _ hp] at hmem
    cases hmem
  · right
    rw [if_neg (by have := hl.2; omega)]
    obtain ⟨t, l, hq⟩ := List.exists_cons_of_ne_nil hne
    have hmem : t ∈ a.queue (.ready (Spec.topPri cfg fun p => a.queue (.ready p))) := by
      rw [hq]
      exact List.mem_cons_self
    obtain ⟨hrdy, hpri⟩ := ((ha.task t).ready _).mp hmem
    have hhead : (a.queue (.ready (Spec.topPri cfg fun p => a.queue (.ready p)))).head? = some t := by
      rw [hq]
      rfl
    refine ⟨t, hhead, hrdy, by rw [hpri]; exact hhead, fun u hu => ?_⟩
    -- a task of a more urgent line would stand in an empty one
    rw [hpri]
    by_contra hlt
    obtain ⟨hp, hmem⟩ := hready u hu
    rw [hmin _ hp.1 (by omega)] at hmem
    cases hmem

/-- **After any run of these calls every node is where it belongs.** -/
theorem structure_exact (h : RunOf Unsuspending tr s) : ∃ E, Structured tr s E := by
  obtain ⟨a, hm, hT, hsus⟩ := h.unsuspended
  have htask := hm.inv.task
  refine ⟨Refine.elems a, hm.refines.rings.mono fun r hr => ⟨⟨heads_of_isHead hm hr, id⟩, rfl⟩,
    fun r hr x => hm.mem_elems hT hsus hr x, ?_, ?_, ?_, ?_, ?_, ?_⟩
  -- each field is read off the invariant of the abstract kernel
  · intro t ht
    rw [hm.refines.core] at ht ⊢
    exact (htask t).tskpri (by rw [ht]; decide)
  · intro t ht ho
    rw [hm.refines.core] at ht ho ⊢
    refine ((htask t).tskwait (by rw [ht]; decide)).mpr ⟨?_, ho⟩
    rw [ht]
    rfl
  · intro o t _ ht
    obtain ⟨u, hu, he⟩ := List.mem_map.mp ht
    obtain rfl := Node.qnode.inj he
    rw [hm.refines.core]
    exact hm.inv.exists_of_waitq o u hu
  · intro i hi k hk
    rw [hm.refines.rdyq.bitmap i hi k hk]
    refine and_congr_right fun _ => ?_
    have hnil : a.queue (.ready (i * cfg.bitmapsz + k)) ≠ [] ↔
        Refine.elems a (.priq (i * cfg.bitmapsz + k)) ≠ [] := by
      simp [Refine.elems]
    rw [← hnil]
    exact ⟨fun hne => ⟨hm.refines.onLines _ hne, hne⟩, fun hh => hh.2⟩
  · simp only [hm.refines.schedtsk, hm.refines.core]
    rcases top_cases hm.inv.toSettled with ⟨ht, hno⟩ | ⟨t, ht, hrdy, hfirst, hmin⟩
    · exact Or.inl ⟨by rw [ht]; rfl, hno⟩
    · refine Or.inr ⟨t, by rw [ht]; rfl, hrdy, ?_, hmin⟩
      rw [Refine.elems, List.head?_map, hfirst]
      rfl
  · rw [hm.refines.runtsk]
    cases hrun : a.runtsk with
    | none => exact Or.inl rfl
    | some t =>
      rw [hm.refines.core]
      exact Or.inr ⟨t, rfl, hm.inv.runtsk t hrun⟩

/-- Of three tasks one sleeps with a timeout, one waits for a semaphore and one is ready. -/
theorem structure_exact_three : ∃ (tr : Trace smallConfig) (s : Kernel smallConfig),
    (∃ E, Structured tr s E) ∧ (s.core.tcb 0).state = .wai ∧ waitTimeout 0 tr = some 5 ∧
      (s.core.tcb 1).waitObj = some (.sem 0) ∧ s.schedtsk = .qnode 2 := by
  obtain ⟨tr, s, h, hs⟩ := exists_runOf (C := Unsuspending)
    (Q := fun tr s => (s.core.tcb 0).state = .wai ∧ waitTimeout 0 tr = some 5 ∧
      (s.core.tcb 1).waitObj = some (.sem 0) ∧ s.schedtsk = .qnode 2)
    (startTasks [1, 2, 3] ++ [.creSem 1 ⟨0, 0, 1⟩, .dispatch, .tslpTsk 5, .waiSem 1]) zeroed
    (by decide +kernel)
  exact ⟨tr, s, structure_exact h, hs⟩

end Ittrium
