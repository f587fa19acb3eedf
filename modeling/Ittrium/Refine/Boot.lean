import Ittrium.Refine.Calls

/-!
# The initial state

Whatever the memory holds, the initializations of `main` leave all tasks and semaphores free, all
other rings empty and nothing to run.

* `initial` — that state over lists
* `boot_refines`, `initial_inv` — **it is what `boot` makes, and the invariant holds in it**
-/

namespace Ittrium.Refine

open Infra Spec

variable {cfg : Config}

/-! ## The loops over the control blocks -/

/-- A loop that sets data and links sets each of them by a loop. -/
theorem foldl_setCore_setLinks {ι : Type} (f : ι → Core cfg → Core cfg)
    (g : ι → Links (Node cfg) → Links (Node cfg)) (xs : List ι) (s : Kernel cfg) :
    xs.foldl (fun s i => (s.setCore (f i)).setLinks (g i)) s =
      { s with
        core := xs.foldl (fun c i => f i c) s.core
        links := xs.foldl (fun h i => g i h) s.links } := by
  induction xs generalizing s with
  | nil => rfl
  | cons i xs ih => rw [List.foldl_cons, ih]; rfl

/-- A part of the data that no round touches. -/
theorem foldl_keep {σ ι γ : Type} (part : σ → γ) {step : σ → ι → σ}
    (hstep : ∀ c i, part (step c i) = part c) (xs : List ι) (c : σ) :
    part (xs.foldl step c) = part c := by
  induction xs generalizing c with
  | nil => rfl
  | cons i xs ih => rw [List.foldl_cons, ih, hstep]

/-- A table of which each round sets one entry. -/
theorem foldl_set {σ ι β : Type} [DecidableEq ι] (table : σ → ι → β) {step : σ → ι → σ}
    {P : β → Prop} (hself : ∀ c i, P (table (step c i) i))
    (hother : ∀ c i j, j ≠ i → table (step c i) j = table c j) (xs : List ι) (c : σ) (i : ι)
    (hi : i ∈ xs ∨ P (table c i)) : P (table (xs.foldl step c) i) := by
  induction xs generalizing c with
  | nil => exact hi.resolve_left (by simp)
  | cons j xs ih =>
    refine ih _ ?_
    by_cases hj : i = j
    · subst hj
      exact Or.inr (hself c i)
    · rw [hother c j i hj]
      exact hi.imp_left fun hm => (List.mem_cons.mp hm).resolve_left hj

/-! ## The state -/

/-- All tasks and semaphores are free. -/
def initial (s : Kernel cfg) : Model cfg where
  core := (boot s).core
  queue
    | .free => List.finRange cfg.tnumTskid
    | _ => []
  freeSem := List.finRange cfg.tnumSemid
  runtsk := none

section

variable (s : Kernel cfg)

theorem mailboxInitialize_keep : (mailboxInitialize s).core.tcb = s.core.tcb ∧
    (mailboxInitialize s).core.semcb = s.core.semcb ∧
    (mailboxInitialize s).core.flgcb = s.core.flgcb ∧
    (mailboxInitialize s).core.timerNesting = s.core.timerNesting := by
  unfold mailboxInitialize
  simp only [foldl_setCore_setLinks]
  exact ⟨foldl_keep Core.tcb (by intros; rfl) _ _, foldl_keep Core.semcb (by intros; rfl) _ _,
    foldl_keep Core.flgcb (by intros; rfl) _ _, foldl_keep Core.timerNesting (by intros; rfl) _ _⟩

theorem semaphoreInitialize_keep : (semaphoreInitialize s).core.tcb = s.core.tcb ∧
    (semaphoreInitialize s).core.flgcb = s.core.flgcb ∧
    (semaphoreInitialize s).core.timerNesting = s.core.timerNesting := by
  unfold semaphoreInitialize
  simp only [foldl_setCore_setLinks]
  exact ⟨foldl_keep Core.tcb (by intros; rfl) _ _, foldl_keep Core.flgcb (by intros; rfl) _ _,
    foldl_keep Core.timerNesting (by intros; rfl) _ _⟩

theorem eventflagInitialize_keep : (eventflagInitialize s).core.tcb = s.core.tcb ∧
    (eventflagInitialize s).core.timerNesting = s.core.timerNesting := by
  unfold eventflagInitialize
  simp only [foldl_setCore_setLinks]
  exact ⟨foldl_keep Core.tcb (by intros; rfl) _ _,
    foldl_keep Core.timerNesting (by intros; rfl) _ _⟩

theorem boot_task (t : TskIx cfg) : ((boot s).core.tcb t).state = .noexs := by
  unfold boot
  rw [(mailboxInitialize_keep _).1, (semaphoreInitialize_keep _).1, (eventflagInitialize_keep _).1]
  show ((taskInitialize s).core.tcb t).state = _
  unfold taskInitialize Kernel.setTcb
  simp only [foldl_setCore_setLinks]
  exact foldl_set (P := fun tcb => tcb.state = .noexs) Core.tcb
    (by intros; simp [Core.setTcb]) (by intros; simp [Core.setTcb, *]) _ _ t (.inl (List.mem_finRange t))

theorem boot_sem (i : SemIx cfg) : ((boot s).core.semcb i).obj.state = .noexs := by
  unfold boot
  rw [(mailboxInitialize_keep _).2.1, semaphoreInitialize]
  simp only [foldl_setCore_setLinks]
  exact foldl_set (P := fun cb => cb.obj.state = .noexs) Core.semcb
    (by intros; simp [Core.setSemcb]) (by intros; simp [Core.setSemcb, *]) _ _ i (.inl (List.mem_finRange i))

theorem boot_mbx (i : MbxIx cfg) : ((boot s).core.mbxcb i).obj.state = .noexs := by
  unfold boot mailboxInitialize
  simp only [foldl_setCore_setLinks]
  exact foldl_set (P := fun cb => cb.obj.state = .noexs) Core.mbxcb
    (by intros; simp [Core.setMbxcb]) (by intros; simp [Core.setMbxcb, *]) _ _ i (.inl (List.mem_finRange i))

theorem boot_timerNesting : (boot s).core.timerNesting = 0 := by
  unfold boot
  rw [(mailboxInitialize_keep _).2.2.2, (semaphoreInitialize_keep _).2.2,
    (eventflagInitialize_keep _).2]
  rfl

/-- **The invariant holds initially.** -/
theorem initial_inv : Inv (initial s) where
  nodup := fun l => by
    cases l <;> first | exact List.nodup_nil | exact List.nodup_finRange _
  exists_of_waitq := fun o t ht => by simp [initial] at ht
  mem_freeSem := fun i => by simp [initial, boot_sem]
  freeSem_nodup := List.nodup_finRange _
  task := fun t => .of_free (boot_task s t) fun l => by cases l <;> simp [initial]
  runtsk := fun t ht => by simp [initial] at ht
  timerNesting := boot_timerNesting s

/-! ## The rings -/

theorem boot_rest : (boot s).rdyq = (taskInitialize s).rdyq ∧ (boot s).runtsk = .null ∧
    (boot s).schedtsk = .null := by
  unfold boot mailboxInitialize semaphoreInitialize eventflagInitialize timerInitialize taskInitialize
    Kernel.setTcb
  simp only [foldl_setCore_setLinks]
  exact ⟨rfl, rfl, rfl⟩

/-- The order in which the rings are initialized. -/
theorem boot_links : (boot s).links =
    let h := ((List.range cfg.tmaxTpri).map fun (i : Nat) => Node.priq i).foldl
      (fun h x => kqueueInit x h) s.links
    let h := ((List.finRange cfg.tnumTskid).map Node.qnode).foldl
      (fun h x => kqueueInsert x .freeTcb h) (kqueueInit .freeTcb h)
    let h := kqueueInit .timerQueue h
    let h := ((List.finRange cfg.tnumFlgid).map fun i => Node.waitq (.flg i)).foldl
      (fun h x => kqueueInit x h) h
    let h := ((List.finRange cfg.tnumSemid).map fun i => Node.waitq (.sem i)).foldl
      (fun h x => kqueueInsert x .freeSemcb h) (kqueueInit .freeSemcb h)
    ((List.finRange cfg.tnumMbxid).map fun i => Node.waitq (.mbx i)).foldl
      (fun h x => kqueueInit x h) h := by
  unfold boot mailboxInitialize semaphoreInitialize eventflagInitialize timerInitialize taskInitialize
    Kernel.setTcb
  simp only [foldl_setCore_setLinks, List.foldl_map]
  rfl

/-- Different entries of a table have different addresses. -/
theorem nodup_map_finRange {n : Nat} {f : Fin n → Node cfg} (hf : Function.Injective f) :
    ((List.finRange n).map f).Nodup :=
  (List.nodup_finRange n).map hf

/-- Only the nodes of free tasks and semaphores are members of rings. -/
theorem off_initial {H : Node cfg → Prop} {x : Node cfg} (hx : ¬ H x)
    (hq : ∀ t, x = .qnode t → ¬ H .freeTcb) (hw : ∀ i, x = .waitq (.sem i) → ¬ H .freeSemcb) :
    OffRings H (elems (initial s)) x := by
  intro r hr hm
  rcases List.mem_cons.mp hm with rfl | hm
  · exact hx hr
  · cases r with
    | freeTcb =>
      obtain ⟨t, -, rfl⟩ := List.mem_map.mp hm
      exact hq t rfl hr
    | freeSemcb =>
      obtain ⟨i, -, rfl⟩ := List.mem_map.mp hm
      exact hw i rfl hr
    | _ => simp [elems, initial] at hm

/-- **The rings are well formed and disjoint from the start.** -/
theorem boot_rings : RingFamily (boot s).links (fun r => heads (initial s) r ∧ ¬ False)
    (elems (initial s)) := by
  -- one step for each loop of `boot_links`, in its order
  have h₁ := kqueueInitAll_family ((List.range cfg.tmaxTpri).map fun (i : Nat) => Node.priq i)
    (RingFamily.empty s.links (elems (initial s)))
    (List.nodup_range.map fun i j h => Int.ofNat_inj.mp (Node.priq.inj h))
    (by simp [elems, initial]) (fun _ _ _ h => h.elim)
  have h₂ := kqueueFill_family ((List.finRange cfg.tnumTskid).map Node.qnode) h₁ (r := .freeTcb)
    (off_initial s (by simp) (by simp) (by simp)) rfl
    (List.nodup_cons.mpr ⟨by simp, nodup_map_finRange fun i j h => by simpa using h⟩) (by
      intro x hx
      obtain ⟨t, -, rfl⟩ := List.mem_map.mp hx
      exact off_initial s (by simp) (by simp) (by simp))
  have h₃ := h₂.selfLink (x := .timerQueue) (off_initial s (by simp) (by simp) (by simp))
  rw [← show elems (initial s) .timerQueue = [] from rfl, Function.update_eq_self] at h₃
  have h₄ := kqueueInitAll_family
    ((List.finRange cfg.tnumFlgid).map fun i => Node.waitq (.flg i)) h₃
    (nodup_map_finRange fun i j h => by simpa using h) (by simp [elems, initial]) (by
      intro x hx
      obtain ⟨i, -, rfl⟩ := List.mem_map.mp hx
      exact off_initial s (by simp) (by simp) (by simp))
  have h₅ := kqueueFill_family
    ((List.finRange cfg.tnumSemid).map fun i => Node.waitq (.sem i)) h₄ (r := .freeSemcb)
    (off_initial s (by simp) (by simp) (by simp)) rfl
    (List.nodup_cons.mpr ⟨by simp, nodup_map_finRange fun i j h => by simpa using h⟩) (by
      intro x hx
      obtain ⟨i, -, rfl⟩ := List.mem_map.mp hx
      exact off_initial s (by simp) (by simp) (by simp))
  have h₆ := kqueueInitAll_family
    ((List.finRange cfg.tnumMbxid).map fun i => Node.waitq (.mbx i)) h₅
    (nodup_map_finRange fun i j h => by simpa using h) (by simp [elems, initial]) (by
      intro x hx
      obtain ⟨i, -, rfl⟩ := List.mem_map.mp hx
      exact off_initial s (by simp) (by simp) (by simp))
  rw [boot_links]
  refine h₆.mono fun r hr => ⟨?_, rfl⟩
  cases r with
  | priq p =>
    obtain ⟨n, rfl⟩ := Int.eq_ofNat_of_zero_le hr.1.1
    have hn : (n : Int) < cfg.tmaxTpri := hr.1.2
    have hm : n < cfg.tmaxTpri := by omega
    exact .inr (.inr (.inr (.inr (.inr (.inl
      (List.mem_map.mpr ⟨n, List.mem_range.mpr hm, rfl⟩))))))
  | waitq o => cases o <;> simp [heads, initial] at hr ⊢
  | qnode t => simp [heads, initial, boot_task, Stat.waiting_iff] at hr
  | wtmeb t => simp [heads, initial, boot_task, Stat.waiting_iff] at hr
  | null => exact hr.1.elim
  | _ => simp

/-- **The kernel starts in the initial state.** -/
theorem boot_refines : Refines (boot s) (initial s) where
  core := rfl
  runtsk := (boot_rest s).2.1
  schedtsk := by
    rw [(boot_rest s).2.2]
    have ht : topPri cfg (fun p => (initial s).queue (.ready p)) = cfg.tmaxTpri :=
      topPri_eq_max fun _ _ => rfl
    unfold Model.top topOf
    rw [if_pos ht]
    rfl
  onLines := fun p hp => absurd rfl hp
  rdyq := by
    rw [(boot_rest s).1]
    refine ⟨fun i hi k hk => ?_, ?_⟩
    · have hz : (taskInitialize s).rdyq.bitmap i = 0 := by
        unfold taskInitialize Kernel.setTcb
        simp only [foldl_setCore_setLinks]
        exact if_pos ⟨by omega, by exact_mod_cast hi⟩
      rw [hz]
      simp [initial]
    · unfold taskInitialize Kernel.setTcb
      simp only [foldl_setCore_setLinks]
      exact (topPri_eq_max fun _ _ => rfl).symm
  rings := boot_rings s
  off := fun _ hf => hf.elim

end

end Ittrium.Refine
