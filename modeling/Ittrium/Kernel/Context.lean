import Ittrium.Infra.Bytes
import Ittrium.Kernel.TskManage

/-!
# Contexts on the stack

The part of `config/cortex-a53/cpu_support.S` that stores and loads contexts, and `ext_tsk` as it
runs on the stack of the task that ends. Elsewhere `dispatch` stands for its effect on the kernel's
data alone.

A frame holds the general registers. Compiled code also uses the floating-point and SIMD registers,
`FPCR` and `FPSR`: they are saved nowhere, so a task finds in them what others have left there. They
are no part of the model.

* `CtxFrame` — what a frame of `CTX_FRAME_SIZE` bytes holds; its last word is not used
* `dispatchOn`, `extTskOn` — with the registers and the stack pointer
-/

namespace Ittrium

open Infra

variable {cfg : Config}

/-- `CTX_FRAME_SIZE`. -/
def ctxFrameSize : VP := 272

/-- The general registers `x0` to `x30`, `SPSR` and `ELR`: all that `save_gprs` and what follows it
put away. -/
structure CtxFrame where
  x : Fin 31 → BitVec 64
  spsr : BitVec 64
  elr : BitVec 64

/-- The stores of `save_gprs`, and the two stores that follow it, into a frame at `p`. -/
def storeFrame (f : CtxFrame) (p : VP) (mem : VP → UInt8) : VP → UInt8 :=
  let mem := (List.finRange 31).foldl (fun mem (i : Fin 31) => storeWord p i (f.x i) mem) mem
  let mem := storeWord p 31 f.spsr mem
  storeWord p 32 f.elr mem

/-- Word `i` at `p`. -/
def loadWord (p : VP) (i : Nat) (mem : VP → UInt8) : BitVec 64 :=
  BitVec.ofNat 64 (readLE (fun k => mem (p + BitVec.ofNat 64 k)) (8 * i) 8)

/-- The loads of `restore_sched`. -/
def loadFrame (p : VP) (mem : VP → UInt8) : CtxFrame where
  x i := loadWord p i mem
  spsr := loadWord p 31 mem
  elr := loadWord p 32 mem

/-- The frame `make_task_context` builds. -/
def startFrame (tcb : TCB cfg) : CtxFrame where
  x i := if i = 0 then tcb.exinf else if i = 30 then cfg.extTsk else 0
  spsr := spsrEl1h
  elr := tcb.task

/-- The frame `dispatch` stores. -/
def dispatchFrame (x : Fin 31 → BitVec 64) : CtxFrame := ⟨x, spsrEl1h, x 30⟩

/-- The memory is `m`. -/
def Kernel.withMem (m : VP → UInt8) (s : Kernel cfg) : Kernel cfg :=
  s.setCore fun c => { c with mem := m }

/-- `dispatch`, called with the registers `x` and the stack pointer `sp`. -/
def dispatchOn (x : Fin 31 → BitVec 64) (sp : VP) (s : Kernel cfg) : Kernel cfg :=
  let sp := sp - ctxFrameSize
  let s := s.withMem (storeFrame ⟨x, spsrEl1h, x 30⟩ sp s.core.mem)
  let s :=
    match s.runtsk with
    | .qnode t => s.setTcb t fun tcb => { tcb with tskctxb := { tcb.tskctxb with sp := sp } }
    | _ => s
  dispatch s

/-- A function saves registers and locals in the `f` bytes from `low` on. -/
def keepLocals (locals : VP → UInt8) (low : VP) (f : Nat) (s : Kernel cfg) : Kernel cfg :=
  s.withMem fun a => if (a - low).toNat < f then locals a else s.core.mem a

/-- `ext_tsk`, entered with the stack pointer `sp`. It keeps its locals in the `f` bytes below, and
calls `dispatch` with the registers `x`. -/
def extTskOn (locals : VP → UInt8) (x : Fin 31 → BitVec 64) (sp : VP) (f : Nat) (s : Kernel cfg) :
    Outcome cfg := do
  let low := sp - BitVec.ofNat 64 f
  let s := keepLocals locals low f s
  let t ← runTcb s
  let s := taskMakeUnready t s
  let s := s.setCore (taskMakeDormant t)
  let s :=
    if (s.core.tcb t).actcnt ≠ 0 then
      let s := s.setTcb t fun tcb => { tcb with actcnt := tcb.actcnt - 1 }
      taskMakeReady t (s.setCore (makeTaskContext t))
    else s
  let s := { s with runtsk := .null }
  .ok (dispatchOn x low s, .none)

/-! ## Only the memory is another -/

variable {m : VP → UInt8} {t : TskIx cfg} {s s' : Kernel cfg} {r : Ret cfg}

theorem rdyqRemove_withMem : rdyqRemove t (s.withMem m) = (rdyqRemove t s).withMem m := by
  unfold rdyqRemove
  dsimp only [Kernel.withMem, Kernel.setCore, Kernel.setLinks, Kernel.setRdyq]
  split
  · rfl
  · split <;> rfl

theorem taskMakeUnready_withMem :
    taskMakeUnready t (s.withMem m) = (taskMakeUnready t s).withMem m := by
  unfold taskMakeUnready
  rw [rdyqRemove_withMem]
  dsimp only [Kernel.withMem, Kernel.setCore]
  split <;> rfl

theorem taskMakeReady_withMem : taskMakeReady t (s.withMem m) = (taskMakeReady t s).withMem m := by
  unfold taskMakeReady rdyqInsert
  dsimp only [Kernel.withMem, Kernel.setCore, Kernel.setTcb, Kernel.setLinks, Kernel.setRdyq,
    Core.setTcb]
  split <;> rfl

theorem taskMakeDormant_withMem (t : TskIx cfg) (m : VP → UInt8) (s : Kernel cfg) :
    ∃ m', (s.withMem m).setCore (taskMakeDormant t) =
      (s.setCore (taskMakeDormant t)).withMem m' := by
  refine ⟨((s.withMem m).setCore (taskMakeDormant t)).core.mem, ?_⟩
  unfold taskMakeDormant
  dsimp only [Kernel.withMem, Kernel.setCore, Core.setTcb]
  split <;> rfl

theorem makeTaskContext_withMem (t : TskIx cfg) (m : VP → UInt8) (s : Kernel cfg) :
    ∃ m', (s.withMem m).setCore (makeTaskContext t) =
      (s.setCore (makeTaskContext t)).withMem m' :=
  ⟨((s.withMem m).setCore (makeTaskContext t)).core.mem, rfl⟩

/-- A task that has ended starts anew if that was asked for. -/
def restart (t : TskIx cfg) (s : Kernel cfg) : Kernel cfg :=
  if (s.core.tcb t).actcnt ≠ 0 then
    taskMakeReady t ((s.setTcb t fun tcb => { tcb with actcnt := tcb.actcnt - 1 }).setCore
      (makeTaskContext t))
  else s

theorem restart_withMem (t : TskIx cfg) (m : VP → UInt8) (s : Kernel cfg) :
    ∃ m', restart t (s.withMem m) = (restart t s).withMem m' := by
  unfold restart
  by_cases h : (s.core.tcb t).actcnt ≠ 0
  · rw [if_pos h, if_pos (show ((s.withMem m).core.tcb t).actcnt ≠ 0 from h)]
    obtain ⟨m', hm⟩ := makeTaskContext_withMem t m
      (s.setTcb t fun tcb => { tcb with actcnt := tcb.actcnt - 1 })
    refine ⟨m', ?_⟩
    rw [← taskMakeReady_withMem, ← hm]
    rfl
  · rw [if_neg h, if_neg (show ¬ ((s.withMem m).core.tcb t).actcnt ≠ 0 from h)]
    exact ⟨m, rfl⟩

theorem extTsk_eq (hr : runTcb s = .ok t) :
    extTsk s = .ok (dispatch { restart t ((taskMakeUnready t s).setCore (taskMakeDormant t)) with
      runtsk := .null }, .none) := by
  unfold extTsk
  rw [hr]
  rfl

theorem extTskOn_eq {locals : VP → UInt8} {x : Fin 31 → BitVec 64} {sp : VP} {f : Nat}
    (hr : runTcb s = .ok t) :
    extTskOn locals x sp f s = .ok (dispatchOn x (sp - BitVec.ofNat 64 f)
      { restart t ((taskMakeUnready t (keepLocals locals (sp - BitVec.ofNat 64 f) f s)).setCore
          (taskMakeDormant t)) with runtsk := .null }, .none) := by
  have hr' : runTcb (keepLocals locals (sp - BitVec.ofNat 64 f) f s) = .ok t := hr
  unfold extTskOn
  dsimp only
  rw [hr']
  rfl

/-- **With the stack or without, `ext_tsk` does the same to the kernel's data.** -/
theorem extTskOn_same {locals : VP → UInt8} {x : Fin 31 → BitVec 64} {sp : VP} {f : Nat}
    (hr : runTcb s = .ok t) :
    ∃ s' m, extTsk s = .ok (s', .none) ∧
      extTskOn locals x sp f s = .ok (s'.withMem m, .none) := by
  rw [extTsk_eq hr, extTskOn_eq hr, keepLocals, taskMakeUnready_withMem]
  obtain ⟨m₁, h₁⟩ := taskMakeDormant_withMem t
    (fun a => if (a - (sp - BitVec.ofNat 64 f)).toNat < f then locals a else s.core.mem a)
    (taskMakeUnready t s)
  obtain ⟨m₂, h₂⟩ := restart_withMem t m₁ ((taskMakeUnready t s).setCore (taskMakeDormant t))
  rw [h₁, h₂]
  exact ⟨_, _, rfl, rfl⟩

end Ittrium
