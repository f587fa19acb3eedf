import Ittrium.Kernel.Calls
import Ittrium.Kernel.Context

/-!
# The processor and who it works for

`dispatch`, `restore_sched`, `irq_entry` and the idle loop of `config/cortex-a53/cpu_support.S`,
with the registers. Between them a task, `main` or an interrupt handler runs, and makes calls.

* `Machine` — the kernel, and what the processor does
* `saveContext`, `restoreSched` — one context is put away, another one taken out
* `Act`, `act` — the steps

Interrupts stay masked while one is handled, so `int_nesting` is zero in `irq_entry`.
-/

namespace Ittrium

variable {cfg : Config}

/-- What the processor does. The frame is what its registers hold. -/
inductive Cpu where
  /-- A task or `main` runs. -/
  | running (sp : VP) (f : CtxFrame)
  /-- An interrupt is handled, with the frame of what it interrupted at `sp`. -/
  | handling (sp : VP) (idle : Bool)
  /-- It waits in `idle_loop`. -/
  | idle

structure Machine (cfg : Config) where
  kernel : Kernel cfg
  cpu : Cpu

/-- A frame is stored below `sp`, and its address in the `TCB` of `old`. -/
def saveContext (old : Node cfg) (f : CtxFrame) (sp : VP) (s : Kernel cfg) : Kernel cfg :=
  let sp := sp - ctxFrameSize
  let s := s.withMem (storeFrame f sp s.core.mem)
  match old with
  | .qnode t => s.setTcb t fun tcb => { tcb with tskctxb := { tcb.tskctxb with sp := sp } }
  | _ => s

/-- What `dispatch` does before it restores another context. -/
theorem dispatchOn_eq (x : Fin 31 → BitVec 64) (sp : VP) (s : Kernel cfg) :
    dispatchOn x sp s = dispatch (saveContext s.runtsk (dispatchFrame x) sp s) := rfl

/-- `restore_sched`, and `idle_activate` when there is no task to run. -/
def restoreSched (s : Kernel cfg) : Machine cfg :=
  let s := dispatch s
  match s.runtsk with
  | .qnode t =>
    let sp := (s.core.tcb t).tskctxb.sp
    ⟨s, .running (sp + ctxFrameSize) (loadFrame sp s.core.mem)⟩
  | _ => ⟨s, .idle⟩

/-- `irq_entry` up to the handler. -/
def irqEntry (idle : Bool) (sp : VP) (f : CtxFrame) (s : Kernel cfg) : Machine cfg :=
  ⟨saveContext s.runtsk f sp s, .handling (sp - ctxFrameSize) idle⟩

/-- `irq_entry` from `gic_eoi` on. -/
def irqExit (idle : Bool) (sp : VP) (s : Kernel cfg) : Machine cfg :=
  if s.schedtsk = s.runtsk then
    ⟨s, if idle then .idle else .running (sp + ctxFrameSize) (loadFrame sp s.core.mem)⟩
  else restoreSched s

/-! ## Steps -/

/-- Bytes are written one after the other. -/
def writeBytes (ws : List (VP × UInt8)) (mem : VP → UInt8) : VP → UInt8 :=
  ws.foldl (fun mem w => Function.update mem w.1 w.2) mem

/-- `ext_tsk` sets `runtsk` to null before it calls `dispatch`. -/
def leaver (c : Call cfg) (s : Kernel cfg) : Node cfg :=
  match c with
  | .extTsk => .null
  | _ => s.runtsk

/-- The calls made in interrupt handlers. None of them calls `dispatch`. -/
def Call.inHandler : Call cfg → Bool
  | .iactTsk _ | .iwupTsk _ | .isigSem _ | .isetFlg _ _ | .timerHandler => true
  | _ => false

inductive Act (cfg : Config) where
  /-- The code that runs computes: registers and memory change. -/
  | work (sp : VP) (f : CtxFrame) (ws : List (VP × UInt8))
  /-- A call returns and has not switched. -/
  | call (c : Call cfg)
  /-- A call ends in `dispatch`, with the registers and the stack pointer there are. -/
  | switch (c : Call cfg)
  | interrupt
  /-- An interrupt while `idle_loop` waits, with the registers `f`. -/
  | interruptIdle (f : CtxFrame)
  | handlerCall (c : Call cfg)
  | handlerWork (ws : List (VP × UInt8))
  | handlerReturn
  /-- `idle_loop` looks at `schedtsk`. -/
  | poll

/-- What a step does, `idleTop` being the end of `idle_stack`. -/
def act (idleTop : VP) : Act cfg → Machine cfg → Option (Machine cfg)
  | .work sp f ws, ⟨s, .running _ _⟩ => some ⟨s.withMem (writeBytes ws s.core.mem), .running sp f⟩
  | .call c, ⟨s, .running sp f⟩ =>
    match exec c s with
    | .ok (s', _) => if c ≠ .extTsk ∧ s'.runtsk = s.runtsk then some ⟨s', .running sp f⟩ else none
    | .error _ => none
  | .switch c, ⟨s, .running sp f⟩ =>
    match exec c s with
    | .ok (s', _) => some (restoreSched (saveContext (leaver c s) (dispatchFrame f.x) sp s'))
    | .error _ => none
  | .interrupt, ⟨s, .running sp f⟩ => some (irqEntry false sp f s)
  | .interruptIdle f, ⟨s, .idle⟩ => some (irqEntry true idleTop f s)
  | .handlerCall c, ⟨s, .handling sp idle⟩ =>
    if c.inHandler then
      match exec c s with
      | .ok (s', _) => some ⟨s', .handling sp idle⟩
      | .error _ => none
    else none
  | .handlerWork ws, ⟨s, .handling sp idle⟩ =>
    some ⟨s.withMem (writeBytes ws s.core.mem), .handling sp idle⟩
  | .handlerReturn, ⟨s, .handling sp idle⟩ => some (irqExit idle sp s)
  | .poll, ⟨s, .idle⟩ => if s.schedtsk = .null then some ⟨s, .idle⟩ else some (restoreSched s)
  | _, _ => none

/-- A call that ends in `dispatch` is a step. -/
theorem dispatchOn_switch {c : Call cfg} {s s₁ : Kernel cfg} {r : Ret cfg} (hc : c ≠ .extTsk)
    (he : exec c s = .ok (dispatch s₁, r)) (hr : s₁.runtsk = s.runtsk) (idleTop sp : VP)
    (f : CtxFrame) :
    act idleTop (.switch c) ⟨s, .running sp f⟩ = some (restoreSched (dispatchOn f.x sp s₁)) := by
  have hleaver : leaver c s = s₁.runtsk := by
    rw [hr]
    cases c with
    | extTsk => exact absurd rfl hc
    | _ => rfl
  simp only [act, he, hleaver, dispatchOn_eq]
  unfold saveContext
  dsimp only
  split <;> rfl

/-- `ext_tsk` on its stack is a step, after its locals have been written. -/
theorem extTskOn_switch {locals : VP → UInt8} {f : CtxFrame} {sp : VP} {n : Nat} {s : Kernel cfg}
    {t : TskIx cfg} (hr : runTcb s = .ok t) {s' : Kernel cfg} {r : Ret cfg}
    (he : extTskOn locals f.x sp n s = .ok (s', r)) (idleTop : VP) :
    act idleTop (.switch .extTsk) ⟨keepLocals locals (sp - BitVec.ofNat 64 n) n s,
      .running (sp - BitVec.ofNat 64 n) f⟩ = some (restoreSched s') := by
  rw [extTskOn_eq hr] at he
  obtain ⟨rfl, -⟩ := Prod.mk.inj (Except.ok.inj he)
  have hx := extTsk_eq (s := keepLocals locals (sp - BitVec.ofNat 64 n) n s) hr
  simp only [act, exec, hx]
  rfl

end Ittrium
