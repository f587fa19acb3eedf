import Ittrium.Elf.Accounting
import Ittrium.Elf.Writes
import Ittrium.Properties.TaskStart

/-!
# What one `elf_run` writes and allocates

* `RunArgs.created` — the image and the stack of the task, if it comes to one
* `RunArgs.writes` — the file's segments or its image, the stack, and the frame at its top
* `elfRunBegin_effect` — **`elf_run` writes nothing else, and leaves allocated the image and the
  stack of its task or nothing**
-/

namespace Ittrium.Elf

open Infra

variable {cfg : Config} {s s' : Sys cfg} {a : RunArgs} {img : ElfImage} {p : VP} {n : Nat}
  {tskid : Int} {pk : TCtsk} {h : List Block} {own : Bool} {stack : VP}

/-! ## The task -/

/-- A control block is free for a task of this ID. -/
def Creatable (tskid : Int) (s : Kernel cfg) : Prop :=
  ∃ t : TskIx cfg, (if tskid = 0 then cfg.tmaxTskid ≤ t.val else (t : Int) + 1 = tskid) ∧
    (s.core.tcb t).state = .noexs

instance (tskid : Int) (s : Kernel cfg) : Decidable (Creatable tskid s) :=
  inferInstanceAs (Decidable (∃ _ : TskIx cfg, _ ∧ _))

/-- Where the frame is that a task starts with. -/
def frameAt (stack : VP) (stksz : SIZE) : VP := ((stack + stksz.setWidth 64) &&& ~~~ 15#64) - 272

/-- What a task writes until it starts. -/
def taskAreas (stack : VP) (stksz : SIZE) : List (VP × Nat) :=
  [(stack, stksz.toNat), (frameAt stack stksz, 264)]

theorem newTask_writes {t : TskIx cfg} {k k' : Kernel cfg} (h : NewTask t pk k k') :
    OnlyIn (areas (taskAreas pk.stk pk.stksz)) k.core.mem k'.core.mem :=
  h.stack.mono (area_subset_areas List.mem_cons_self)

/-- A call changes only the kernel. -/
theorem call_result {c : Call cfg} : Ensures (s.call c) fun v =>
    v.1.heap = s.heap ∧ v.1.mods = s.mods ∧ exec c s.kernel = .ok (v.1.kernel, v.2) := by
  unfold Sys.call
  split
  · next k r hc => exact .ok ⟨rfl, rfl, hc⟩
  · exact .error

/-- Creation fails, or fills the stack. -/
theorem create_writes :
    Ensures (s.call (if tskid = 0 then .acreTsk pk else .creTsk tskid pk)) fun v =>
      (∃ r, createdId tskid v.2 = .error r) ∧ v.1.kernel = s.kernel ∨
        ∃ j t, createdId tskid v.2 = .ok j ∧ getTcb j = .ok t ∧ Creatable tskid s.kernel ∧
          NewTask t pk s.kernel v.1.kernel := by
  intro v hv
  obtain ⟨-, -, hexec⟩ := call_result v hv
  -- `acre_tsk` chooses the ID, `cre_tsk` is given one
  by_cases h0 : tskid = 0
  · rw [if_pos h0] at hexec
    rcases acreTsk_writes _ hexec with ⟨e, he⟩ | ⟨j, t, hr, hlo, ht, hc⟩
    · obtain ⟨hk, hr⟩ := Prod.mk.inj he
      refine Or.inl ⟨⟨.er e, ?_⟩, hk⟩
      unfold createdId
      rw [if_pos h0, hr]
    · have hid := id_of_entryOf ht
      refine Or.inr ⟨j, t, ?_, ht, ⟨t, ?_, hc.free⟩, hc⟩
      · unfold createdId
        rw [if_pos h0, show v.2 = .newId j from hr]
        show (if j ≤ 0 then _ else _) = _
        rw [if_neg (by omega)]
      · rw [if_pos h0]
        omega
  · rw [if_neg h0] at hexec
    rcases creTsk_writes _ hexec with ⟨e, hne, he⟩ | ⟨hr, t, ht, hc⟩
    · obtain ⟨hk, hr⟩ := Prod.mk.inj he
      refine Or.inl ⟨⟨.er e, ?_⟩, hk⟩
      unfold createdId
      rw [if_neg h0, hr, if_neg (by simpa using hne)]
    · have hid := id_of_entryOf ht
      refine Or.inr ⟨tskid, t, ?_, ht, ⟨t, ?_, hc.free⟩, hc⟩
      · unfold createdId
        rw [if_neg h0, if_pos hr]
      · rw [if_neg h0, hid.1]

/-- **Unless a control block is free, it fails and nothing is written.** -/
theorem startTask_writes : Ensures (startTask tskid pk s) fun v =>
    (∃ r, v.2 = .error r) ∧ v.1.kernel.core.mem = s.kernel.core.mem ∨ Creatable tskid s.kernel ∧
      OnlyIn (areas (taskAreas pk.stk pk.stksz)) s.kernel.core.mem v.1.kernel.core.mem := by
  unfold startTask
  refine .bind' fun v hv => ?_
  rcases create_writes v hv with ⟨⟨r, hr⟩, hk⟩ | ⟨j, t, hr, ht, hfree, hc⟩
  · split
    rw [hr]
    exact .ok (Or.inl ⟨⟨r, rfl⟩, congrArg (·.core.mem) hk⟩)
  · split
    rw [hr]
    refine .bind' fun w hw => ?_
    obtain ⟨-, -, hexec⟩ := call_result w hw
    have hact := (newTask_writes hc).trans ((actTsk_writes ht _ hexec).mono ?_)
    · refine .ite (fun _ => .bind' fun x hx => .ok (Or.inr ⟨hfree, ?_⟩)) fun _ =>
        .ok (Or.inr ⟨hfree, hact⟩)
      obtain ⟨-, -, hexec⟩ := call_result x hx
      rw [show x.1.kernel.core.mem = _ from delTsk_mem _ hexec]
      exact hact
    · refine area_subset_areas ?_
      rw [startAddr, hc.top]
      exact List.mem_cons_of_mem _ (List.mem_singleton_self _)

theorem startTask_heap : Ensures (startTask tskid pk s) fun v => v.1.heap = s.heap := by
  unfold startTask
  refine .bind' fun v hv => ?_
  have h₁ := (call_result v hv).1
  split
  split
  · exact .ok h₁
  · refine .bind' fun w hw => ?_
    have h₂ := (call_result w hw).1.trans h₁
    exact .ite (fun _ => .bind' fun x hx => .ok ((call_result x hx).1.trans h₂)) fun _ => .ok h₂

/-! ## The call -/

namespace RunArgs

variable (a)

/-- The file, if `elf_run` comes to loading it. -/
def loads : LoadFile := if a.path = none ∨ a.stksz = 0 then .absent else a.file

/-- The stack `elf_run` uses. -/
def stackAt : Option VP := if a.stack ≠ 0 then some a.stack else a.stackMem

/-- The image and the stack of the task, if one is created. -/
def created (s : Sys cfg) : Option (ElfImage × VP) :=
  (a.loads.image a.image).bind fun img => (modAlloc s).bind fun _ => a.stackAt.bind fun stack =>
    if Creatable a.tskid s.kernel then some (img, stack) else none

/-- What `elf_run` writes. -/
def writes (s : Sys cfg) : List (VP × Nat) :=
  a.loads.areas a.image ++ (a.created s).toList.flatMap fun c => taskAreas c.2 a.stksz

/-- The block of the stack, if `elf_run` allocates it. -/
def stackBlocks (stack : VP) : List Block :=
  if a.stack = 0 then [⟨stack, a.stksz.toNat⟩] else []

end RunArgs

/-- What `elf_run` leaves allocated. -/
def Leaves (a : RunArgs) (s : Sys cfg) : Sys cfg × Begun cfg → Prop
  | (s', .done _) => s'.heap = s.heap
  | (s', .pending p) => a.created s = some (p.img, p.stack) ∧
      p.stackOwned = decide (a.stack = 0) ∧
      s'.heap = a.stackBlocks p.stack ++ (p.img.blocks ++ s.heap)

theorem Sys.free_top (h0 : p ≠ 0) (hh : s.heap = ⟨p, n⟩ :: h) :
    s.free p = .ok { s with heap := h } := by
  have hf : freeBlock p (⟨p, n⟩ :: h) = some h := freeBlock_append (l := []) h0 (by simp)
  unfold Sys.free
  rw [hh, hf]

/-- The image is given back. -/
theorem elfUnload_undo (h0 : img.owned → img.base ≠ 0) (hh : s.heap = img.blocks ++ h) :
    elfUnload img s = .ok { s with heap := h } := by
  unfold elfUnload
  unfold ElfImage.blocks at hh
  by_cases ho : img.owned = true
  · rw [if_pos ⟨ho, h0 ho⟩]
    rw [if_pos ho] at hh
    exact Sys.free_top (h0 ho) hh
  · rw [if_neg fun hc => ho hc.1]
    rw [if_neg ho] at hh
    exact congrArg Except.ok (by rw [← show s.heap = h from hh])

/-- So is the stack. -/
theorem freeStack_undo (h0 : a.stack = 0 → stack ≠ 0)
    (hh : s.heap = a.stackBlocks stack ++ h) :
    freeStack (decide (a.stack = 0)) stack s = .ok { s with heap := h } := by
  unfold freeStack
  unfold RunArgs.stackBlocks at hh
  by_cases ho : a.stack = 0
  · rw [if_pos (decide_eq_true ho)]
    rw [if_pos ho] at hh
    exact Sys.free_top (h0 ho) hh
  · rw [if_neg (by simpa using ho)]
    rw [if_neg ho] at hh
    exact congrArg Except.ok (by rw [← show s.heap = h from hh])

theorem getStack_eq : a.getStack s =
    a.stackAt.map fun stack => (decide (a.stack = 0), stack,
      { s with heap := a.stackBlocks stack ++ s.heap }) := by
  unfold RunArgs.getStack RunArgs.stackAt RunArgs.stackBlocks
  by_cases h0 : a.stack = 0
  · rw [if_neg (not_not.mpr h0), if_neg (not_not.mpr h0)]
    cases a.stackMem with
    | none => rfl
    | some p => simp [h0]
  · rw [if_pos h0, if_pos h0, decide_eq_false h0]
    simp only [if_neg h0, List.nil_append, Option.map_some]

theorem stackAt_ne (hg : a.stackMem ≠ some 0) (h : a.stackAt = some stack) : stack ≠ 0 := by
  unfold RunArgs.stackAt at h
  split at h
  · next h0 => exact Option.some.inj h ▸ h0
  · rintro rfl
    exact hg h

/-- **`elf_run` writes its areas and nothing else, and leaves allocated only what its task has.** -/
theorem elfRunBegin_effect (hg : a.Granted) (hne : ∀ b ∈ a.file.buffer, b.1 ∉ a.image) :
    Ensures (elfRunBegin a s) fun v =>
      OnlyIn (areas (a.writes s)) s.kernel.core.mem v.1.kernel.core.mem ∧ Leaves a s v := by
  have hkept : Yields (elfLoad a.file a.image s.machine) _ _ := elfLoad_kept a.file s.machine
  have hret := elfLoad_returns (m := s.machine) hg.1 hne
  have hall := elfLoad_allocates (m := s.machine) hg.1
  unfold elfRunBegin elfRunWith
  cases hpath : a.path with
  | none => exact .ok ⟨OnlyIn.refl, rfl⟩
  | some path =>
    refine .ite (fun _ => .ok ⟨OnlyIn.refl, rfl⟩) fun hsz => ?_
    have hloads : a.loads = a.file := if_neg (by rw [hpath]; exact not_or.mpr ⟨nofun, hsz⟩)
    have hfile : areas (a.file.areas a.image) ⊆ areas (a.writes s) := by
      rintro x ⟨b, hb, hx⟩
      refine ⟨b, List.mem_append_left _ ?_, hx⟩
      rw [hloads]
      exact hb
    cases hx : elfLoad a.file a.image s.machine with
    | error x =>
      cases x with
      | fault e => exact .error
      | reject m => exact .ok ⟨(hkept.error _ hx).mono hfile, hret.error _ hx⟩
    | ok v =>
      obtain ⟨img, m⟩ := v
      obtain ⟨himg, hheap⟩ := hret.result _ hx
      have hbase := (hall.result img m hx).2.2
      have hmem : OnlyIn (areas (a.writes s)) s.kernel.core.mem m.mem :=
        (hkept.result _ hx).mono hfile
      dsimp only
      rw [show modAlloc (s.withMachine m) = modAlloc s from rfl]
      cases hmod : modAlloc s with
      | none =>
        dsimp only
        rw [elfUnload_undo hbase hheap]
        exact .ok ⟨hmem, rfl⟩
      | some mod =>
        dsimp only
        rw [getStack_eq]
        cases hst : a.stackAt with
        | none =>
          dsimp only [Option.map_none]
          rw [elfUnload_undo hbase hheap]
          exact .ok ⟨hmem, rfl⟩
        | some stack =>
          -- what `writes` has for the task is the memory that was allocated here
          have hcreated : Creatable a.tskid s.kernel → a.created s = some (img, stack) := by
            intro hc
            rw [RunArgs.created, hloads, himg, hmod, hst]
            exact if_pos hc
          refine .bind' fun v hv => ?_
          have hheap₂ : v.1.heap = a.stackBlocks stack ++ (img.blocks ++ s.heap) :=
            (startTask_heap v hv).trans (congrArg _ hheap)
          have hstart := startTask_writes v hv
          obtain ⟨s₂, x⟩ := v
          have hmem₂ : OnlyIn (areas (a.writes s)) s.kernel.core.mem s₂.kernel.core.mem := by
            rcases hstart with ⟨-, hm⟩ | ⟨hc, hm⟩
            · rw [show s₂.kernel.core.mem = m.mem from hm]
              exact hmem
            · refine hmem.trans (OnlyIn.mono hm ?_)
              rintro x ⟨b, hb, hx⟩
              refine ⟨b, List.mem_append_right _ ?_, hx⟩
              rw [hcreated hc]
              exact List.mem_flatMap.mpr ⟨_, List.mem_singleton_self _, hb⟩
          cases x with
          | ok id =>
            rcases hstart with ⟨⟨r, hr⟩, -⟩ | ⟨hc, -⟩
            · cases hr
            · exact .ok ⟨hmem₂, hcreated hc, rfl, hheap₂⟩
          | error r =>
            dsimp only
            -- no task has been started: the stack and the image are given back
            rw [freeStack_undo (fun _ => stackAt_ne hg.2 hst) hheap₂]
            refine .bind' fun w hw => ?_
            obtain rfl := Except.ok.inj hw
            rw [elfUnload_undo hbase rfl]
            exact .ok ⟨hmem₂, rfl⟩

end Ittrium.Elf
