import Ittrium.Elf.Accounting

/-!
# The records of modules

`elf_run` chooses a slot of `g_mods`, calls `act_tsk`, and fills the slot in when that has returned.
Any task may run in between.

* `Loader` — the system, the calls of `elf_run` that are in `act_tsk`, and the modules that are live
* `Registered` — every live module has a slot of its own, and `elf_kill` finds it
* `modules_registered` — **modules are registered in a run just if every slot that is filled in is
  still free, and no other module has the ID of its task**
-/

namespace Ittrium.Elf

open Infra

variable {cfg : Config} {s s' : Sys cfg} {i j : ModIx cfg} {p q : Pending cfg} {tskid : Int}

/-! ## The system -/

/-- What `elf_run` fills a slot in with. -/
def Pending.record (p : Pending cfg) : ElfMod :=
  ⟨p.id, { p.img with owned := true }, p.stack, p.stackOwned, true⟩

structure Loader (τ : Type) (cfg : Config) where
  sys : Sys cfg
  /-- The calls of `elf_run` that are in `act_tsk`. -/
  pending : τ → Option (Pending cfg)
  /-- The modules whose `elf_run` has returned, and that no `elf_kill` has ended. -/
  live : List (Pending cfg)

inductive LoaderAct (τ : Type) (cfg : Config) where
  /-- `elf_run`, up to the end of `act_tsk`. -/
  | run (t : τ) (a : RunArgs)
  /-- The rest of it. -/
  | finish (t : τ)
  | kill (tskid : Int)
  | call (c : Call cfg)

namespace Loader

variable {τ : Type} [DecidableEq τ]

/-- A step, with what it returns to its caller. -/
def act (n : Loader τ cfg) : LoaderAct τ cfg → Option (Loader τ cfg × Option (Ret cfg))
  | .run t a =>
    if n.pending t ≠ none then none else
    match elfRunBegin a n.sys with
    | .error _ => none
    | .ok (s, .done r) => some ({ n with sys := s }, some r)
    | .ok (s, .pending p) =>
      some ({ n with sys := s, pending := Function.update n.pending t (some p) }, none)
  | .finish t =>
    match n.pending t with
    | none => none
    | some p =>
      let r := elfRunEnd p n.sys
      some (⟨r.1, Function.update n.pending t none, n.live ++ [p]⟩, some r.2)
  | .kill tskid =>
    match elfKill tskid n.sys with
    | .error _ => none
    | .ok (s, r) =>
      let live := if r = .er .ok then n.live.filter (·.id ≠ tskid) else n.live
      some ({ n with sys := s, live }, some r)
  | .call c =>
    match n.sys.call c with
    | .error _ => none
    | .ok (s, r) => some ({ n with sys := s }, some r)

/-- Nothing has been loaded. -/
def Start (n : Loader τ cfg) : Prop :=
  (∀ i, n.sys.mods i = .zero) ∧ (∀ t, n.pending t = none) ∧ n.live = []

end Loader

/-- **Every live module is registered.** -/
structure Registered {τ : Type} (n : Loader τ cfg) : Prop where
  records : ∀ p ∈ n.live, n.sys.mods p.mod = p.record
  own : (n.live.map Pending.mod).Nodup
  found : ∀ p ∈ n.live, modFind p.id n.sys = some p.mod

/-- The slot that is filled in is still free, and no module has the ID of the new task. -/
def SlotFree {τ : Type} (n : Loader τ cfg) : LoaderAct τ cfg → Prop
  | .finish t => ∀ p ∈ n.pending t, (n.sys.mods p.mod).used = false ∧ modFind p.id n.sys = none
  | _ => True

/-! ## Slots -/

/-- The slots are those of `s`. -/
def KeepsMods (s s' : Sys cfg) : Prop := s'.mods = s.mods

theorem Sys.free_mods {p : VP} (h : KeepsMods s s') : Ensures (s'.free p) (KeepsMods s) := by
  unfold Sys.free
  split
  · exact .ok h
  · exact .error

theorem elfUnload_mods {img : ElfImage} (h : KeepsMods s s') :
    Ensures (elfUnload img s') (KeepsMods s) :=
  .ite (fun _ => Sys.free_mods h) fun _ => .ok h

theorem freeStack_mods {own : Bool} {stack : VP} (h : KeepsMods s s') :
    Ensures (freeStack own stack s') (KeepsMods s) :=
  .ite (fun _ => Sys.free_mods h) fun _ => .ok h

theorem call_mods {c : Call cfg} (h : KeepsMods s s') :
    Ensures (s'.call c) fun v => KeepsMods s v.1 := by
  unfold Sys.call
  split
  · exact .ok h
  · exact .error

theorem startTask_mods {pk : TCtsk} (h : KeepsMods s s') :
    Ensures (startTask tskid pk s') fun v => KeepsMods s v.1 := by
  unfold startTask
  refine .bind' fun v hv => ?_
  have h₁ := call_mods h v hv
  split
  split
  · exact .ok h₁
  · refine .bind' fun w hw => ?_
    have h₂ := call_mods h₁ w hw
    exact .ite (fun _ => .bind' fun x hx => .ok (call_mods h₂ x hx)) fun _ => .ok h₂

theorem getStack_mods {a : RunArgs} {own : Bool} {stack : VP} {s₁ : Sys cfg} (h : KeepsMods s s')
    (hs : a.getStack s' = some (own, stack, s₁)) : KeepsMods s s₁ := by
  unfold RunArgs.getStack at hs
  split at hs
  · cases hs
    exact h
  · split at hs
    · cases hs
    · cases hs
      exact h

/-- `elf_run` fills nothing in before `act_tsk` has returned. -/
theorem elfRunBegin_mods {a : RunArgs} : Ensures (elfRunBegin a s) fun v => KeepsMods s v.1 := by
  unfold elfRunBegin elfRunWith
  split
  · exact .ok rfl
  · refine .ite (fun _ => .ok rfl) fun _ => ?_
    split
    · exact .error
    · exact .ok rfl
    · next img m _ =>
      have h₁ : KeepsMods s (s.withMachine m) := rfl
      dsimp only
      split
      · exact .bind' fun v hv => .ok (elfUnload_mods h₁ v hv)
      · split
        · exact .bind' fun v hv => .ok (elfUnload_mods h₁ v hv)
        · next own stack s₂ hst =>
          have h₂ : KeepsMods s s₂ := getStack_mods h₁ hst
          refine .bind' fun v hv => ?_
          have h₃ := startTask_mods h₂ v hv
          split
          · exact .ok h₃
          · refine .bind' fun w hw => ?_
            have h₄ := freeStack_mods h₃ w hw
            exact .bind' fun x hx => .ok (elfUnload_mods h₄ x hx)

theorem modFreeSlot_mods (h : KeepsMods s s') :
    Ensures (modFreeSlot i s') fun w => w.mods = Function.update s.mods i .zero := by
  refine .bind' fun v hv => .bind' fun w hw => .ok ?_
  have h₂ : KeepsMods s w := freeStack_mods (elfUnload_mods h v hv) w hw
  exact congrArg (Function.update · i ElfMod.zero) h₂

/-! ## Looking up -/

theorem modFind_eq_none :
    modFind tskid s = none ↔ ∀ i, (s.mods i).used = true → (s.mods i).tskid ≠ tskid := by
  unfold modFind
  rw [List.find?_eq_none]
  simp

/-- The only slot of an ID is found. -/
theorem modFind_of_unique (hu : (s.mods i).used = true) (hid : (s.mods i).tskid = tskid)
    (huniq : ∀ j, (s.mods j).used = true → (s.mods j).tskid = tskid → j = i) :
    modFind tskid s = some i := by
  cases hf : modFind tskid s with
  | none => exact absurd hid (modFind_eq_none.mp hf i hu)
  | some j =>
    obtain ⟨hj, hidj⟩ := modFind_used hf
    rw [huniq j hj hidj]

/-- `elf_kill` fails and changes no slot, or empties the one it has found. -/
theorem elfKill_mods : Ensures (elfKill tskid s) fun v =>
    (KeepsMods s v.1 ∧ v.2 ≠ .er .ok) ∨
      ∃ i, modFind tskid s = some i ∧ v.2 = .er .ok ∧
        v.1.mods = Function.update s.mods i .zero := by
  refine .ite (fun _ => .ok (Or.inl ⟨rfl, by simp⟩)) fun _ => ?_
  split
  · exact .ok (Or.inl ⟨rfl, by simp⟩)
  · next i hi =>
    refine .bind' fun v hv => ?_
    have h₁ : KeepsMods s v.1 := call_mods rfl v hv
    refine .ite (fun hr => .ok (Or.inl ⟨h₁, hr.1⟩)) fun _ => .bind' fun w hw => ?_
    exact .ok (Or.inr ⟨i, hi, rfl, modFreeSlot_mods h₁ w hw⟩)

/-! ## Steps -/

section

variable {τ : Type} [DecidableEq τ] {n n' : Loader τ cfg} {l : LoaderAct τ cfg}
  {r : Option (Ret cfg)}

/-- The slots that are used are those of the live modules. -/
structure LoaderInv (n : Loader τ cfg) : Prop where
  records : ∀ p ∈ n.live, n.sys.mods p.mod = p.record
  own : (n.live.map Pending.mod).Nodup
  ids : (n.live.map Pending.id).Nodup
  covered : ∀ i, (n.sys.mods i).used = true → ∃ p ∈ n.live, p.mod = i

namespace LoaderInv

omit [DecidableEq τ]

/-- The module of a slot with the ID of a live module is that module. -/
theorem eq_of_tskid (h : LoaderInv n) (hp : p ∈ n.live) (hu : (n.sys.mods i).used = true)
    (hid : (n.sys.mods i).tskid = p.id) : i = p.mod := by
  obtain ⟨q, hq, rfl⟩ := h.covered i hu
  rw [h.records q hq] at hid
  rw [List.inj_on_of_nodup_map h.ids hq hp hid]

theorem registered (h : LoaderInv n) : Registered n where
  records := h.records
  own := h.own
  found := fun p hp => by
    have hrec := h.records p hp
    exact modFind_of_unique (by rw [hrec]; rfl) (by rw [hrec]; rfl)
      fun j hu hid => h.eq_of_tskid hp hu hid

/-- No slot changes. -/
theorem of_mods (h : LoaderInv n) (hm : KeepsMods n.sys n'.sys) (hl : n'.live = n.live) :
    LoaderInv n' := by
  unfold KeepsMods at hm
  constructor
  · rw [hl, hm]
    exact h.records
  · rw [hl]
    exact h.own
  · rw [hl]
    exact h.ids
  · rw [hl, hm]
    exact h.covered

/-- A free slot is filled in. -/
theorem fill (h : LoaderInv n) (hu : (n.sys.mods p.mod).used = false)
    (hid : modFind p.id n.sys = none) (hm : n'.sys = (elfRunEnd p n.sys).1)
    (hl : n'.live = n.live ++ [p]) : LoaderInv n' := by
  have hmods : n'.sys.mods = Function.update n.sys.mods p.mod p.record := by
    rw [hm]
    rfl
  have hused : ∀ q ∈ n.live, (n.sys.mods q.mod).used = true := fun q hq => by
    rw [h.records q hq]
    rfl
  -- the slot was free, so no module has it
  have hne : ∀ q ∈ n.live, q.mod ≠ p.mod := fun q hq he => by
    have := hused q hq
    rw [he, hu] at this
    cases this
  constructor
  · rw [hl, hmods]
    intro q hq
    rcases List.mem_append.mp hq with hq | hq
    · rw [Function.update_of_ne (hne q hq), h.records q hq]
    · rw [List.mem_singleton.mp hq, Function.update_self]
  · rw [hl, List.map_append, List.map_singleton, ← List.concat_eq_append]
    refine h.own.concat fun hmem => ?_
    obtain ⟨q, hq, he⟩ := List.mem_map.mp hmem
    exact hne q hq he
  · rw [hl, List.map_append, List.map_singleton, ← List.concat_eq_append]
    refine h.ids.concat fun hmem => ?_
    obtain ⟨q, hq, he⟩ := List.mem_map.mp hmem
    refine modFind_eq_none.mp hid q.mod (hused q hq) ?_
    rw [h.records q hq]
    exact he
  · rw [hl, hmods]
    intro j hj
    by_cases hjp : j = p.mod
    · exact ⟨p, by simp, hjp.symm⟩
    · rw [Function.update_of_ne hjp] at hj
      obtain ⟨q, hq, he⟩ := h.covered j hj
      exact ⟨q, List.mem_append_left _ hq, he⟩

/-- The slot of a module is emptied. -/
theorem empty (h : LoaderInv n) (hi : modFind tskid n.sys = some i)
    (hm : n'.sys.mods = Function.update n.sys.mods i .zero)
    (hl : n'.live = n.live.filter (·.id ≠ tskid)) : LoaderInv n' := by
  obtain ⟨hu, hid⟩ := modFind_used hi
  constructor
  · rw [hl, hm]
    intro q hq
    obtain ⟨hq, hne⟩ := List.mem_filter.mp hq
    -- a module with another task has another slot
    have hqi : q.mod ≠ i := fun he => by
      rw [← he, h.records q hq] at hid
      exact of_decide_eq_true hne hid
    rw [Function.update_of_ne hqi, h.records q hq]
  · rw [hl]
    exact h.own.sublist (List.filter_sublist.map _)
  · rw [hl]
    exact h.ids.sublist (List.filter_sublist.map _)
  · rw [hl, hm]
    intro j hj
    have hji : j ≠ i := fun he => by
      rw [he, Function.update_self] at hj
      cases hj
    rw [Function.update_of_ne hji] at hj
    obtain ⟨q, hq, rfl⟩ := h.covered j hj
    refine ⟨q, List.mem_filter.mpr ⟨hq, decide_eq_true fun he => hji ?_⟩, rfl⟩
    exact (h.eq_of_tskid hq hu (hid.trans he.symm)).symm

end LoaderInv

/-- **What a step does to slots and modules.** -/
inductive Turns (n n' : Loader τ cfg) : LoaderAct τ cfg → Prop where
  | still {l : LoaderAct τ cfg} : (∀ t, l ≠ .finish t) → KeepsMods n.sys n'.sys →
      n'.live = n.live → Turns n n' l
  | filled {t : τ} {p : Pending cfg} : n.pending t = some p → n'.sys = (elfRunEnd p n.sys).1 →
      n'.live = n.live ++ [p] → Turns n n' (.finish t)
  | emptied {tskid : Int} {i : ModIx cfg} : modFind tskid n.sys = some i →
      n'.sys.mods = Function.update n.sys.mods i .zero →
      n'.live = n.live.filter (·.id ≠ tskid) → Turns n n' (.kill tskid)

theorem Loader.turns (hs : n.act l = some (n', r)) : Turns n n' l := by
  cases l with
  | run t a =>
    simp only [Loader.act] at hs
    split at hs
    · cases hs
    · split at hs
      · cases hs
      · next hb =>
        cases hs
        exact .still (by simp) (elfRunBegin_mods _ hb) rfl
      · next hb =>
        cases hs
        exact .still (by simp) (elfRunBegin_mods _ hb) rfl
  | finish t =>
    simp only [Loader.act] at hs
    split at hs
    · cases hs
    · next hp =>
      cases hs
      exact .filled hp rfl rfl
  | kill tskid =>
    simp only [Loader.act] at hs
    split at hs
    · cases hs
    · next hk =>
      cases hs
      rcases elfKill_mods _ hk with ⟨hm, hr⟩ | ⟨i, hi, hr, hm⟩
      · exact .still (by simp) hm (if_neg hr)
      · exact .emptied hi hm (if_pos hr)
  | call c =>
    simp only [Loader.act] at hs
    split at hs
    · cases hs
    · next hc =>
      cases hs
      exact .still (by simp) (call_mods rfl _ hc) rfl

omit [DecidableEq τ] in
theorem LoaderInv.step (h : LoaderInv n) (hfree : SlotFree n l) (ht : Turns n n' l) :
    LoaderInv n' := by
  cases ht with
  | still _ hm hl => exact h.of_mods hm hl
  | filled hp hm hl =>
    obtain ⟨hu, hid⟩ := hfree _ hp
    exact h.fill hu hid hm hl
  | emptied hi hm hl => exact h.empty hi hm hl

omit [DecidableEq τ] in
/-- **A slot that is in use, or an ID that another module has, is never filled in well.** -/
theorem LoaderInv.not_registered (h : LoaderInv n) (hn : ¬ SlotFree n l) (ht : Turns n n' l) :
    ¬ Registered n' := by
  intro hr
  cases ht with
  | still hne =>
    refine hn ?_
    cases l with
    | finish t => exact absurd rfl (hne t)
    | _ => trivial
  | @filled t p hp hm hl =>
    refine hn fun p' hp' => ?_
    obtain rfl := Option.some.inj (hp.symm.trans hp')
    have hown := hr.own
    rw [hl, List.map_append, List.map_singleton, List.nodup_append] at hown
    -- both the old and the new module would have the slot
    have hu : (n.sys.mods p.mod).used = false := by
      by_contra hu
      obtain ⟨q, hq, he⟩ := h.covered p.mod (Bool.not_eq_false _ ▸ hu)
      exact hown.2.2 q.mod (List.mem_map_of_mem hq) p.mod (List.mem_singleton.mpr rfl) he
    refine ⟨hu, ?_⟩
    by_contra hid
    obtain ⟨i, hi⟩ := Option.ne_none_iff_exists'.mp hid
    obtain ⟨hui, hidi⟩ := modFind_used hi
    obtain ⟨q, hq, rfl⟩ := h.covered i hui
    have hqid : q.id = p.id := by
      rw [h.records q hq] at hidi
      exact hidi
    have hfq := hr.found q (by rw [hl]; exact List.mem_append_left _ hq)
    have hfp := hr.found p (by rw [hl]; simp)
    rw [hqid, hfp] at hfq
    rw [← Option.some.inj hfq, hu] at hui
    cases hui
  | emptied => exact hn trivial

/-! ## Runs -/

/-- The runs of any tasks that call `elf_run` and `elf_kill`, with the kernel's steps. -/
abbrev LoaderRun : List (Event (Loader τ cfg) (LoaderAct τ cfg × Option (Ret cfg))) →
    Loader τ cfg → Prop :=
  Run Loader.Start fun n l n' => n.act l.1 = some (n', l.2)

omit [DecidableEq τ] in
theorem LoaderInv.start (h : Loader.Start n) : LoaderInv n := by
  obtain ⟨hmods, -, hlive⟩ := h
  constructor
  · rw [hlive]
    exact fun p hp => by cases hp
  · rw [hlive]
    exact List.nodup_nil
  · rw [hlive]
    exact List.nodup_nil
  · intro i hu
    rw [hmods i] at hu
    cases hu

variable {tr : List (Event (Loader τ cfg) (LoaderAct τ cfg × Option (Ret cfg)))}

/-- **Modules are registered in all states of a run just if every `elf_run` finds its slot still
free, and no other module with the ID of its task, when `act_tsk` has returned.** -/
theorem modules_registered (h : LoaderRun tr n) :
    (∀ e ∈ tr, Registered e.post) ↔ ∀ e ∈ tr, SlotFree e.pre e.label.1 := by
  suffices hI : ((∀ e ∈ tr, SlotFree e.pre e.label.1) → LoaderInv n) ∧
      ((∀ e ∈ tr, Registered e.post) ↔ ∀ e ∈ tr, SlotFree e.pre e.label.1) from hI.2
  induction h with
  | start hs => exact ⟨fun _ => .start hs, by simp⟩
  | @step tr n n' l hrun hs ih =>
    obtain ⟨hinv, hiff⟩ := ih
    have ht := Loader.turns hs
    simp only [List.forall_mem_cons]
    refine ⟨fun hall => (hinv hall.2).step hall.1 ht, ?_⟩
    rw [hiff]
    constructor
    · rintro ⟨hreg, hall⟩
      refine ⟨?_, hall⟩
      by_contra hn
      exact (hinv hall).not_registered hn ht hreg
    · rintro ⟨hfree, hall⟩
      exact ⟨((hinv hall).step hfree ht).registered, hall⟩

end

instance {τ : Type} (n : Loader τ cfg) : ∀ l, Decidable (SlotFree n l)
  | .finish t => inferInstanceAs (Decidable (∀ p ∈ n.pending t, _))
  | .run _ _ | .kill _ | .call _ => .isTrue trivial

/-- Nothing has been loaded, and task 1 of priority 2 runs. -/
def loaderShell : Loader Bool smallConfig := ⟨⟨boot zeroed, [], fun _ => .zero⟩, fun _ => none, []⟩

theorem loaderShell_start : Loader.Start loaderShell := ⟨fun _ => rfl, fun _ => rfl, rfl⟩

/-- The shell starts a module with a higher priority, which starts another one. -/
def nestedRuns : List (LoaderAct Bool smallConfig) :=
  (startTasks [2]).map .call ++ [.run false { tinyRun tinyItrm 2 0 with pri := 1 },
    .run true { tinyRun tinyItrm 3 0 with
      pri := 3, image := some 0x210000, stackMem := some 0x310000 },
    .finish true, .call .slpTsk, .finish false]

/-- The shell starts a module and then another one, and ends the first. -/
theorem modules_registered_two : ∃ (tr : List (Event (Loader Bool smallConfig)
      (LoaderAct Bool smallConfig × Option (Ret smallConfig)))) (n : Loader Bool smallConfig),
    (∀ e ∈ tr, Registered e.post) ∧ n.live.map Pending.id = [3] := by
  obtain ⟨tr, n, hrun, hfree, hids⟩ := exists_perform loaderShell_start
    ((startTasks [2]).map .call ++ [.run false (tinyRun tinyItrm 2 0), .finish false,
      .run false { tinyRun tinyItrm 3 0 with image := some 0x210000, stackMem := some 0x310000 },
      .finish false, .kill 2])
    (f := Loader.act) (C := fun _ _ => True)
    (fun tr n => (∀ e ∈ tr, SlotFree e.pre e.label.1) ∧ n.live.map Pending.id = [3])
    (by decide +kernel)
  exact ⟨tr, n, (modules_registered (hrun.mono (fun _ h => h) fun _ _ _ h => h.2)).mpr hfree, hids⟩

/-- **Two calls of `elf_run` choose the same slot**, and the record of a live module is written
over: `elf_kill` does not find it. -/
theorem modules_overwritten : ∃ (tr : List (Event (Loader Bool smallConfig)
      (LoaderAct Bool smallConfig × Option (Ret smallConfig)))) (n : Loader Bool smallConfig),
    LoaderRun tr n ∧ ¬ Registered n ∧ n.live.map Pending.id = [3, 2] ∧ modFind 3 n.sys = none := by
  obtain ⟨tr, n, hrun, hids, hfind⟩ := exists_perform loaderShell_start nestedRuns
    (f := Loader.act) (C := fun _ _ => True)
    (fun _ n => n.live.map Pending.id = [3, 2] ∧ modFind 3 n.sys = none) (by decide +kernel)
  refine ⟨tr, n, hrun.mono (fun _ h => h) fun _ _ _ h => h.2, fun hr => ?_, hids, hfind⟩
  obtain ⟨p, hp, hid⟩ := List.mem_map.mp (show (3 : Int) ∈ n.live.map Pending.id by rw [hids]; simp)
  have hf := hr.found p hp
  rw [hid, hfind] at hf
  cases hf

end Ittrium.Elf
