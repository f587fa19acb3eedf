import Ittrium.Elf.Heap
import Ittrium.Elf.Modules
import Ittrium.Properties.Runs
import Mathlib.Algebra.BigOperators.Group.Finset.Basic
import Mathlib.Data.Fintype.Basic

/-!
# The memory of modules

Images and stacks that are allocated belong to the slot of a module until `elf_kill` frees them.
`elf_run` marks every image as its own, also one in the window, and `elf_kill` then frees an address
that was never allocated.

* `Noted` — the system, with a note for each slot whether its image is in the window
* `Accounted` — the blocks that are allocated are those of the slots
* `modules_accounted` — **that holds in every run in which no module in the window is killed**
-/

namespace Ittrium.Elf

open Infra

variable {cfg : Config} {s s' : Sys cfg} {a : RunArgs} {i : ModIx cfg} {p : VP} {img : ElfImage}

/-! ## Programs that free nothing wrongly -/

/-- A fault other than that of `free`. -/
abbrev NoFree (e : SysFault) : Prop := e ≠ .load .free

/-- The heap has these blocks and the slots are those of `s`. -/
structure Holds (s : Sys cfg) (H : Multiset VP) (s' : Sys cfg) : Prop where
  heap : addrs s'.heap = H
  mods : s'.mods = s.mods

variable {H : Multiset VP} {r : Ret cfg}

theorem Sys.free_yields (h0 : p ≠ 0) (h : Holds s (p ::ₘ H) s') :
    Yields (s'.free p) (Holds s H) NoFree := by
  obtain ⟨h', hf⟩ := freeBlock_of_mem (h := s'.heap) (p := p) (by
    rw [h.heap]
    exact Multiset.mem_cons_self _ _)
  have hfree := addrs_freeBlock h0 hf
  rw [h.heap] at hfree
  unfold Sys.free
  rw [hf]
  exact .ok ⟨(Multiset.cons_inj_right p).mp hfree.symm, h.mods⟩

theorem elfUnload_yields (h0 : img.owned → img.base ≠ 0) (h : Holds s (owned img + H) s') :
    Yields (elfUnload img s') (Holds s H) NoFree := by
  unfold elfUnload owned at *
  by_cases ho : img.owned = true
  · rw [if_pos ho, Multiset.singleton_add] at h
    rw [if_pos ⟨ho, h0 ho⟩]
    exact Sys.free_yields (h0 ho) h
  · rw [if_neg ho, Multiset.zero_add] at h
    rw [if_neg fun hc => ho hc.1]
    exact .ok h

/-- A stack, if it is allocated. -/
def heldStack (own : Bool) (stack : VP) : Multiset VP := if own then {stack} else 0

theorem freeStack_yields {own : Bool} {stack : VP} (h0 : own → stack ≠ 0)
    (h : Holds s (heldStack own stack + H) s') :
    Yields (freeStack own stack s') (Holds s H) NoFree := by
  unfold freeStack heldStack at *
  by_cases ho : own = true
  · rw [if_pos ho, Multiset.singleton_add] at h
    rw [if_pos ho]
    exact Sys.free_yields (h0 ho) h
  · rw [if_neg ho, Multiset.zero_add] at h
    rw [if_neg ho]
    exact .ok h

theorem call_yields (c : Call cfg) (h : Holds s H s') :
    Yields (s'.call c) (fun v => Holds s H v.1) NoFree := by
  unfold Sys.call
  cases hc : exec c s'.kernel with
  | ok v => exact .ok ⟨h.heap, h.mods⟩
  | error e => exact .fail nofun

theorem startTask_yields (tskid : Int) (pk : TCtsk) (h : Holds s H s') :
    Yields (startTask tskid pk s') (fun v => Holds s H v.1) NoFree := by
  unfold startTask
  refine (call_yields _ h).bind fun ⟨s₁, r₁⟩ h₁ => ?_
  dsimp only
  cases createdId tskid r₁ with
  | error r => exact .ok h₁
  | ok id =>
    refine (call_yields _ h₁).bind fun ⟨s₂, r₂⟩ h₂ => ?_
    apply Yields.ite
    · intro _
      exact (call_yields _ h₂).bind fun ⟨s₃, r₃⟩ h₃ => .ok h₃
    · exact fun _ => .ok h₂

/-! ## One call -/

/-- What the allocator has returned to `elf_run`. -/
def RunArgs.Granted (a : RunArgs) : Prop := a.file.Granted a.image ∧ a.stackMem ≠ some 0

/-- What `elf_run` has allocated when its task has started. -/
structure Starts (a : RunArgs) (s : Sys cfg) (p : Pending cfg) (s' : Sys cfg) : Prop where
  free : modAlloc s = some p.mod
  heap : Holds s (owned p.img + (heldStack p.stackOwned p.stack + addrs s.heap)) s'
  owned : p.img.owned = !a.file.isFixed
  base : p.img.owned → p.img.base ≠ 0
  stack : p.stackOwned → p.stack ≠ 0

/-- `elf_run` either has changed nothing, or has started its task. -/
def BeginsWell (a : RunArgs) (s : Sys cfg) : Sys cfg × Begun cfg → Prop
  | (s', .done _) => Holds s (addrs s.heap) s'
  | (s', .pending p) => Starts a s p s'

theorem getStack_some {own : Bool} {stack : VP} (hg : a.stackMem ≠ some 0)
    (h : Holds s H s') {s₁ : Sys cfg} (hs : a.getStack s' = some (own, stack, s₁)) :
    Holds s (heldStack own stack + H) s₁ ∧ (own → stack ≠ 0) := by
  unfold RunArgs.getStack at hs
  split at hs
  · obtain ⟨rfl, rfl, rfl⟩ := by simpa using hs
    exact ⟨⟨h.heap.trans (Multiset.zero_add _).symm, h.mods⟩, nofun⟩
  · cases hmem : a.stackMem with
    | none =>
      rw [hmem] at hs
      cases hs
    | some p =>
      rw [hmem] at hs hg
      obtain ⟨rfl, rfl, rfl⟩ := by simpa using hs
      refine ⟨⟨?_, h.mods⟩, fun _ h0 => hg (by rw [h0])⟩
      rw [addrs_cons, h.heap]
      rfl

theorem elfRunBegin_yields (hg : a.Granted) :
    Yields (elfRunBegin a s) (BeginsWell a s) NoFree := by
  have hsame : Holds s (addrs s.heap) s := ⟨rfl, rfl⟩
  have hload := elfLoad_allocates (m := s.machine) hg.1
  unfold elfRunBegin elfRunWith
  cases a.path with
  | none => exact .ok hsame
  | some path =>
    apply Yields.ite
    · exact fun _ => .ok hsame
    intro _
    cases hx : elfLoad a.file a.image s.machine with
    | error x =>
      cases x with
      | fault e =>
        refine .fail ?_
        rintro ⟨⟩
        exact hload.noFree hx
      | reject m => exact .ok ⟨hload.rejected m hx, rfl⟩
    | ok v =>
      obtain ⟨img, m⟩ := v
      obtain ⟨hheap, hown, hbase⟩ := hload.result img m hx
      have h₁ : Holds s (owned img + addrs s.heap) (s.withMachine m) := ⟨hheap, rfl⟩
      dsimp only
      -- each failure from here on gives back what has been allocated before
      cases hmod : modAlloc (s.withMachine m) with
      | none => exact (elfUnload_yields hbase h₁).bind fun s₂ h₂ => .ok h₂
      | some mod =>
        dsimp only
        cases hst : a.getStack (s.withMachine m) with
        | none => exact (elfUnload_yields hbase h₁).bind fun s₂ h₂ => .ok h₂
        | some v =>
          obtain ⟨own, stack, s₂⟩ := v
          obtain ⟨h₂, hstack⟩ := getStack_some hg.2 h₁ hst
          refine (startTask_yields _ _ h₂).bind fun ⟨s₃, x⟩ h₃ => ?_
          cases x with
          | ok id =>
            refine .ok ⟨hmod, ?_, hown, hbase, hstack⟩
            rw [← Multiset.add_assoc, Multiset.add_comm (owned img), Multiset.add_assoc]
            exact h₃
          | error r =>
            refine (freeStack_yields hstack h₃).bind fun s₄ h₄ => ?_
            exact (elfUnload_yields hbase h₄).bind fun s₅ h₅ => .ok h₅

/-! ## Runs -/

/-- The system, and which slots hold an image in the window. -/
structure Noted (cfg : Config) where
  sys : Sys cfg
  fixed : ModIx cfg → Bool

/-- A call of `elf_run` or `elf_kill`, or a step of the kernel. -/
inductive Act (cfg : Config) where
  | run (a : RunArgs)
  | kill (tskid : Int)
  | call (c : Call cfg)

namespace Noted

variable (n : Noted cfg)

/-- `elf_run`, with a note. -/
def run (a : RunArgs) : SysExec (Noted cfg × Ret cfg) := do
  let (s, b) ← elfRunBegin a n.sys
  match b with
  | .done r => .ok ({ n with sys := s }, r)
  | .pending p =>
    let (s, r) := elfRunEnd p s
    .ok (⟨s, Function.update n.fixed p.mod a.file.isFixed⟩, r)

def act : Act cfg → SysExec (Noted cfg × Ret cfg)
  | .run a => n.run a
  | .kill tskid => do
    let (s, r) ← elfKill tskid n.sys
    .ok ({ n with sys := s }, r)
  | .call c => do
    let (s, r) ← n.sys.call c
    .ok ({ n with sys := s }, r)

/-- The task is the running one, so that `del_tsk` refuses to delete it. -/
def Runs (tskid : Int) : Prop :=
  ∃ t, (getTcb tskid).toOption = some t ∧ n.sys.kernel.runtsk = .qnode t ∧
    (n.sys.kernel.core.tcb t).state ≠ .noexs

instance (tskid : Int) : Decidable (n.Runs tskid) := inferInstanceAs (Decidable (∃ _, _ ∧ _ ∧ _))

/-- The allocator works, and no module in the window is killed. -/
def Permits : Act cfg → Prop
  | .run a => a.Granted
  | .kill tskid => ∀ i, modFind tskid n.sys = some i → n.fixed i = true → n.Runs tskid
  | .call _ => True

instance : ∀ l, Decidable (n.Permits l)
  | .run _ => inferInstanceAs (Decidable (_ ∧ _))
  | .kill _ => inferInstanceAs (Decidable (∀ _, _ → _ → _))
  | .call _ => .isTrue trivial

end Noted

/-- The notes are only notes. -/
theorem Noted.run_sys (n : Noted cfg) (a : RunArgs) :
    (n.run a).map (fun v => (v.1.sys, v.2)) = elfRun a n.sys := by
  unfold Noted.run elfRun
  cases elfRunBegin a n.sys with
  | error e => rfl
  | ok v =>
    obtain ⟨s, b⟩ := v
    cases b <;> rfl

/-- Nothing is allocated and no slot is used. -/
def Fresh (n : Noted cfg) : Prop :=
  Booted n.sys.kernel ∧ n.sys.heap = [] ∧ ∀ i, n.sys.mods i = .zero

/-- The runs in which every step meets the condition. -/
abbrev NotedRun : List (Event (Noted cfg) (Act cfg × Ret cfg)) → Noted cfg → Prop :=
  Run Fresh fun n l n' => n.Permits l.1 ∧ (n.act l.1).toOption = some (n', l.2)

/-! ## The account -/

/-- What a slot owns. -/
def held (fixed : Bool) (m : ElfMod) : Multiset VP :=
  if m.used then (if fixed then 0 else {m.img.base}) + heldStack m.stackOwned m.stack else 0

/-- The blocks are those of the slots. -/
structure Accounted (n : Noted cfg) : Prop where
  live : addrs n.sys.heap = ∑ i, held (n.fixed i) (n.sys.mods i)
  owned : ∀ i, (n.sys.mods i).used → (n.sys.mods i).img.owned
  base : ∀ i, (n.sys.mods i).used → n.fixed i = false → (n.sys.mods i).img.base ≠ 0
  stack : ∀ i, (n.sys.mods i).used → (n.sys.mods i).stackOwned → (n.sys.mods i).stack ≠ 0

variable {n n' : Noted cfg}

/-- One slot changes. -/
theorem sum_held {f g : ModIx cfg → Multiset VP} (hi : ∀ j, j ≠ i → g j = f j) :
    ∑ j, g j + f i = ∑ j, f j + g i := by
  have hrest : ∑ j ∈ Finset.univ.erase i, g j = ∑ j ∈ Finset.univ.erase i, f j :=
    Finset.sum_congr rfl fun j hj => hi j (Finset.ne_of_mem_erase hj)
  rw [← Finset.add_sum_erase _ g (Finset.mem_univ i), ← Finset.add_sum_erase _ f (Finset.mem_univ i),
    hrest, add_right_comm, add_comm (g i), add_right_comm]

/-- A slot is filled in or emptied, and the blocks change with it. -/
theorem Accounted.setMod (h : Accounted n) {m : ElfMod} {fx : Bool}
    (hm : n'.sys.mods = Function.update n.sys.mods i m)
    (hf : n'.fixed = Function.update n.fixed i fx)
    (hheap : addrs n'.sys.heap + held (n.fixed i) (n.sys.mods i) = addrs n.sys.heap + held fx m)
    (howned : m.used → m.img.owned) (hbase : m.used → fx = false → m.img.base ≠ 0)
    (hstack : m.used → m.stackOwned → m.stack ≠ 0) : Accounted n' := by
  have hself : n'.sys.mods i = m := by rw [hm, Function.update_self]
  have hfself : n'.fixed i = fx := by rw [hf, Function.update_self]
  have hother : ∀ j, j ≠ i → n'.sys.mods j = n.sys.mods j ∧ n'.fixed j = n.fixed j := by
    intro j hj
    rw [hm, hf, Function.update_of_ne hj, Function.update_of_ne hj]
    exact ⟨rfl, rfl⟩
  constructor
  -- the sum over the slots changes by what this one has
  · have hsum := sum_held (i := i) (f := fun j => held (n.fixed j) (n.sys.mods j))
      (g := fun j => held (n'.fixed j) (n'.sys.mods j)) fun j hj => by
        rw [(hother j hj).1, (hother j hj).2]
    rw [← h.live, hself, hfself, ← hheap] at hsum
    exact (add_right_cancel hsum).symm
  · intro j hu
    by_cases hj : j = i
    · rw [hj, hself] at hu ⊢
      exact howned hu
    · rw [(hother j hj).1] at hu ⊢
      exact h.owned j hu
  · intro j hu hfix
    by_cases hj : j = i
    · rw [hj, hself] at hu ⊢
      exact hbase hu (by rw [← hfself, ← hj, hfix])
    · rw [(hother j hj).1] at hu ⊢
      exact h.base j hu ((hother j hj).2.symm.trans hfix)
  · intro j hu ho
    by_cases hj : j = i
    · rw [hj, hself] at hu ho ⊢
      exact hstack hu ho
    · rw [(hother j hj).1] at hu ho ⊢
      exact h.stack j hu ho

/-- Nothing has changed but the kernel. -/
theorem Accounted.of_holds (h : Accounted n) (hs : Holds n.sys (addrs n.sys.heap) s) :
    Accounted { n with sys := s } := by
  constructor
  · rw [hs.mods, hs.heap]
    exact h.live
  · rw [hs.mods]
    exact h.owned
  · rw [hs.mods]
    exact h.base
  · rw [hs.mods]
    exact h.stack

/-- `elf_run` with its notes. -/
theorem Accounted.run (h : Accounted n) (hg : a.Granted) :
    Yields (n.run a) (fun v => Accounted v.1) NoFree := by
  unfold Noted.run
  refine (elfRunBegin_yields hg).bind fun ⟨s', b⟩ hb => ?_
  cases b with
  | done r =>
    have hb : Holds n.sys (addrs n.sys.heap) s' := hb
    exact .ok (h.of_holds hb)
  | pending p =>
    have hb : Starts a n.sys p s' := hb
    have hold : held (n.fixed p.mod) (n.sys.mods p.mod) = 0 := by
      rw [held, if_neg (by simp [modAlloc_unused hb.free])]
    refine .ok (h.setMod (i := p.mod) (congrArg (Function.update · p.mod _) hb.heap.mods) rfl ?_
      (fun _ => rfl) (fun _ hf => ?_) fun _ ho => hb.stack ho)
    · have hnew : Elf.owned p.img = if a.file.isFixed then 0 else {p.img.base} := by
        rw [Elf.owned, hb.owned]
        cases a.file.isFixed <;> rfl
      rw [hold, add_zero, held, if_pos rfl, ← hnew, add_comm, add_assoc]
      exact hb.heap.heap
    · exact hb.base (by rw [hb.owned, hf]; rfl)

/-- A used slot is emptied. -/
theorem modFreeSlot_yields (h : Accounted n) (hu : (n.sys.mods i).used) (hf : n.fixed i = false)
    (hs : Holds n.sys (addrs n.sys.heap) s) :
    Yields (modFreeSlot i s) (fun s' => Accounted { n with sys := s' }) NoFree := by
  unfold modFreeSlot
  rw [congrFun hs.mods i]
  -- the slot's own blocks are among those that are allocated
  obtain ⟨H, hH⟩ : ∃ H, ∑ j, held (n.fixed j) (n.sys.mods j) = held false (n.sys.mods i) + H := by
    refine ⟨∑ j ∈ Finset.univ.erase i, held (n.fixed j) (n.sys.mods j), ?_⟩
    rw [← hf, Finset.add_sum_erase _ (fun j => held (n.fixed j) (n.sys.mods j)) (Finset.mem_univ i)]
  have hheap : addrs n.sys.heap = owned (n.sys.mods i).img +
      (heldStack ((n.sys.mods i).stackOwned && (n.sys.mods i).stack ≠ 0) (n.sys.mods i).stack + H) := by
    have hown : (n.sys.mods i).img.owned = true := h.owned i hu
    have hst : heldStack ((n.sys.mods i).stackOwned && decide ((n.sys.mods i).stack ≠ 0))
        (n.sys.mods i).stack = heldStack (n.sys.mods i).stackOwned (n.sys.mods i).stack := by
      cases ho : (n.sys.mods i).stackOwned with
      | false => rfl
      | true => rw [Bool.true_and, decide_eq_true (h.stack i hu ho)]
    rw [hst, h.live, hH, held, if_pos hu, owned, if_pos hown, add_assoc]
    rfl
  have h₀ : Holds n.sys (owned (n.sys.mods i).img + (heldStack ((n.sys.mods i).stackOwned &&
      (n.sys.mods i).stack ≠ 0) (n.sys.mods i).stack + H)) s := ⟨hs.heap.trans hheap, hs.mods⟩
  refine (elfUnload_yields (fun _ => h.base i hu hf) h₀).bind fun s₁ h₁ => ?_
  refine (freeStack_yields (fun ho => ?_) h₁).bind fun s₂ h₂ => ?_
  · exact of_decide_eq_true (Bool.and_eq_true_iff.mp ho).2
  refine .ok (h.setMod (i := i) (congrArg (Function.update · i _) h₂.mods)
    (Function.update_eq_self i n.fixed).symm ?_ nofun nofun nofun)
  show addrs s₂.heap + held (n.fixed i) (n.sys.mods i) = _ + 0
  rw [h₂.heap, hf, add_zero, h.live, hH, add_comm]

theorem ok_of_toOption {ε α : Type} {x : Except ε α} {v : α} (h : x.toOption = some v) :
    x = .ok v := by
  cases x with
  | ok w => exact congrArg Except.ok (Option.some.inj h)
  | error e => cases h

/-- The running task is not deleted. -/
theorem delTsk_running {k : Kernel cfg} {t : TskIx cfg} {tskid : Int} (ht : getTcb tskid = .ok t)
    (hr : k.runtsk = .qnode t) (hn : (k.core.tcb t).state ≠ .noexs) :
    delTsk tskid k = .ok (k, .er .obj) := by
  have hid := id_of_entryOf ht
  have hnum : (cfg.tnumTskid : Int) = cfg.tmaxTskid + cfg.trsvTskid := Int.natCast_add ..
  unfold delTsk
  rw [if_neg (by omega), ht]
  show (if _ then _ else if _ then _ else _) = _
  rw [if_neg hn, if_pos hr]

/-- Its module is not killed. -/
theorem elfKill_running {tskid : Int} (hr : n.Runs tskid) (hfind : modFind tskid n.sys = some i) :
    elfKill tskid n.sys = .ok (n.sys, .er .obj) := by
  obtain ⟨t, ht, hr, hn⟩ := hr
  have ht := ok_of_toOption ht
  have hcall : n.sys.call (.delTsk tskid) = .ok (n.sys, .er .obj) := by
    unfold Sys.call
    rw [show exec (.delTsk tskid) n.sys.kernel = _ from delTsk_running ht hr hn]
  have hid := id_of_entryOf ht
  unfold elfKill
  rw [if_neg (by omega), hfind]
  dsimp only
  rw [hcall]
  rfl

/-- An `elf_kill` that fails has changed nothing. -/
def KillsWell (n : Noted cfg) (v : Sys cfg × Ret cfg) : Prop :=
  Accounted { n with sys := v.1 } ∧ (v.2 ≠ .er .ok → Holds n.sys (addrs n.sys.heap) v.1)

theorem elfKill_yields {tskid : Int} (h : Accounted n) (hp : n.Permits (.kill tskid)) :
    Yields (elfKill tskid n.sys) (KillsWell n) NoFree := by
  have hsame : Holds n.sys (addrs n.sys.heap) n.sys := ⟨rfl, rfl⟩
  cases hfind : modFind tskid n.sys with
  | none =>
    unfold elfKill
    rw [hfind]
    exact .ite (fun _ => .ok ⟨h, fun _ => hsame⟩) fun _ => .ok ⟨h, fun _ => hsame⟩
  | some i =>
    have hu := (modFind_used hfind).1
    by_cases hf : n.fixed i = true
    · -- the kernel refuses
      rw [elfKill_running (hp i hfind hf) hfind]
      exact .ok ⟨h, fun _ => hsame⟩
    unfold elfKill
    rw [hfind]
    refine .ite (fun _ => .ok ⟨h, fun _ => hsame⟩) fun _ => ?_
    refine (call_yields _ hsame).bind fun ⟨s₁, r₁⟩ h₁ => ?_
    apply Yields.ite
    · exact fun _ => .ok ⟨h.of_holds h₁, fun _ => h₁⟩
    · intro _
      refine (modFreeSlot_yields h hu (Bool.eq_false_iff.mpr hf) h₁).bind fun s₂ h₂ => ?_
      exact .ok ⟨h₂, fun hne => absurd rfl hne⟩

/-! ## All steps -/

/-- **One step keeps the account, and frees nothing wrongly.** -/
theorem Accounted.act {l : Act cfg} (h : Accounted n) (hp : n.Permits l) :
    Yields (n.act l) (fun v => Accounted v.1) NoFree := by
  cases l with
  | run a => exact h.run hp
  | kill tskid => exact (elfKill_yields h hp).bind fun ⟨s₁, r₁⟩ h₁ => .ok h₁.1
  | call c =>
    exact (call_yields c ⟨rfl, rfl⟩).bind fun ⟨s₁, r₁⟩ h₁ => .ok (h.of_holds h₁)

theorem Fresh.accounted (h : Fresh n) : Accounted n := by
  obtain ⟨-, hheap, hmods⟩ := h
  refine ⟨?_, fun i hu => ?_, fun i hu => ?_, fun i hu => ?_⟩
  · rw [hheap, Finset.sum_eq_zero fun i _ => by rw [hmods i]; rfl]
    rfl
  all_goals
    rw [hmods i] at hu
    exact absurd hu (by decide)

/-- Nothing is freed that is not allocated, and what fails leaves no trace. -/
structure Sparing (n : Noted cfg) : Prop where
  run : ∀ a : RunArgs, a.Granted → elfRun a n.sys ≠ .error (.load .free)
  runFails : ∀ (a : RunArgs) s e, a.Granted → elfRun a n.sys = .ok (s, .er e) →
    Holds n.sys (addrs n.sys.heap) s
  kill : ∀ tskid, n.Permits (.kill tskid) → elfKill tskid n.sys ≠ .error (.load .free)
  killFails : ∀ tskid s e, n.Permits (.kill tskid) → e ≠ .ok →
    elfKill tskid n.sys = .ok (s, .er e) → Holds n.sys (addrs n.sys.heap) s

theorem Accounted.sparing (h : Accounted n) : Sparing n := by
  have hrun : ∀ a : RunArgs, a.Granted → Yields (elfRun a n.sys)
      (fun v => ∀ e, v.2 = .er e → Holds n.sys (addrs n.sys.heap) v.1) NoFree := by
    intro a hg
    unfold elfRun
    refine (elfRunBegin_yields hg).bind fun ⟨s', b⟩ hb => ?_
    cases b with
    | done r => exact .ok fun _ _ => hb
    | pending p => exact .ok fun e he => by cases he
  refine ⟨fun a hg hx => (hrun a hg).error _ hx rfl, fun a s e hg hx => ?_,
    fun tskid hp hx => (elfKill_yields h hp).error _ hx rfl, fun tskid s e hp he hx => ?_⟩
  · exact (hrun a hg).result _ hx e rfl
  · exact ((elfKill_yields h hp).result _ hx).2 fun hr => he (by injection hr)

variable {tr : List (Event (Noted cfg) (Act cfg × Ret cfg))}

/-- **The blocks that are allocated are those of the slots**, and nothing is freed that is not
allocated, in every run in which no module in the window is killed. -/
theorem modules_accounted (h : NotedRun tr n) : Accounted n ∧ Sparing n := by
  have hacc : Accounted n := by
    refine h.invariant (fun _ hf => hf.accounted) fun n l n' hn hs => ?_
    exact (hn.act hs.1).result _ (ok_of_toOption hs.2)
  exact ⟨hacc, hacc.sparing⟩

/-! ## Two small files -/

/-- Four bytes of code. -/
def tinyItrm : File := ⟨[le 4 0x4D525449, le 4 0, le 4 4, le 4 0].flatten, by decide⟩

/-- Eight zeros in the window. -/
def tinyFixed : File :=
  ⟨[ehdr 2 0x40200000 1, phdr 1 120 0x40200000 0 8].flatten, by decide +kernel⟩

/-- The file, as task `tskid`, with a stack of its own or one at `stack`. -/
def tinyRun (f : File) (tskid : Int) (stack : VP) : RunArgs where
  path := some [0x2f, 0x61]
  tskid := tskid
  stack := stack
  stksz := 0x200
  pri := 2
  file := .whole 0x100000 f
  image := some 0x200000
  stackMem := some 0x300000

/-- Nothing has been loaded. -/
def unloaded : Noted smallConfig := ⟨⟨boot zeroed, [], fun _ => .zero⟩, fun _ => false⟩

theorem unloaded_fresh : Fresh unloaded := ⟨⟨zeroed, rfl⟩, rfl, fun _ => rfl⟩

/-- Task 1 runs. -/
def startShell : List (Act smallConfig) := (startTasks [1]).map .call

theorem modules_accounted_tiny : ∃ tr, ∃ n : Noted smallConfig, NotedRun tr n ∧ (Accounted n ∧ Sparing n) ∧
    addrs n.sys.heap = {0x300000} + {0x200000} ∧ n.fixed 0 = true := by
  obtain ⟨tr, n, hrun, hheap, hfix⟩ := exists_perform (f := fun n l => (Noted.act n l).toOption)
    (C := Noted.Permits) unloaded_fresh (startShell ++ [.run (tinyRun tinyFixed 2 0x9000),
      .run (tinyRun tinyItrm 3 0)])
    (fun _ n => addrs n.sys.heap = {0x300000} + {0x200000} ∧ n.fixed 0 = true) (by decide +kernel)
  exact ⟨tr, n, hrun, modules_accounted hrun, hheap, hfix⟩

/-- The fault a call ends with. -/
def sysFault {α : Type} (x : SysExec α) : Option SysFault :=
  match x with
  | .error e => some e
  | .ok _ => none

theorem eq_of_sysFault {α : Type} {x : SysExec α} {e : SysFault} (h : sysFault x = some e) :
    x = .error e := by
  cases x with
  | ok v => cases h
  | error e' => exact congrArg Except.error (Option.some.inj h)

/-- A module in the window is killed, and what is freed was never allocated. -/
theorem elf_kill_frees_window : ∃ tr, ∃ n : Noted smallConfig, NotedRun tr n ∧
    addrs n.sys.heap = 0 ∧ elfKill 2 n.sys = .error (.load .free) := by
  obtain ⟨tr, n, hrun, hheap, hkill⟩ := exists_perform (f := fun n l => (Noted.act n l).toOption)
    (C := Noted.Permits) unloaded_fresh (startShell ++ [.run (tinyRun tinyFixed 2 0x9000)])
    (fun _ n => addrs n.sys.heap = 0 ∧ sysFault (elfKill 2 n.sys) = some (.load .free))
    (by decide +kernel)
  exact ⟨tr, n, hrun, hheap, eq_of_sysFault hkill⟩

end Ittrium.Elf
