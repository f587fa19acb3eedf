import Ittrium.Kernel.Rdyq

/-!
# `task.c`, and the context a task starts with

`makeTaskContext` is the one of the Cortex-A53 port (`config/cortex-a53/cpu_support.c`).
-/

namespace Ittrium

open Infra

variable {cfg : Config}

/-! ## Stack memory -/

/-- `pstk[i] = v` for an array of 64 bit words at `p`, little endian. -/
def storeWord (p : VP) (i : Nat) (v : BitVec 64) (mem : VP → UInt8) : VP → UInt8 := fun a =>
  let d := a - (p + BitVec.ofNat 64 (8 * i))
  if d < 8 then UInt8.ofNat ((v >>> (8 * d.toNat)).toNat % 256) else mem a

def spsrEl1h : BitVec 64 := 0x00000005

/-- Context frame at the top of the stack: `x0 = exinf`, `x30 = ext_tsk`, `ELR = task`. -/
def makeTaskContext (t : TskIx cfg) (c : Core cfg) : Core cfg :=
  let tcb := c.tcb t
  let pstk := (tcb.stk &&& ~~~ 15#64) - 272
  let mem := (List.range 31).foldl (fun mem i => storeWord pstk i 0 mem) c.mem
  let mem := storeWord pstk 0 tcb.exinf mem
  let mem := storeWord pstk 30 cfg.extTsk mem
  let mem := storeWord pstk 31 spsrEl1h mem
  let mem := storeWord pstk 32 tcb.task mem
  { c with mem := mem }.setTcb t fun tcb => { tcb with tskctxb := { sp := pstk, pc := tcb.task } }

/-- `while (n--) *p++ = 0xa5` from `p` on. -/
def fillStack (p : VP) (n : SIZE) (mem : VP → UInt8) : VP → UInt8 := fun a =>
  if (a - p).toNat < n.toNat then 0xa5 else mem a

/-! ## Task states -/

/-- `tmq_head` is set here as well; nothing reads it. -/
def taskMakeDormant (t : TskIx cfg) (c : Core cfg) : Core cfg :=
  let c := c.setTcb t fun tcb =>
    { tcb with
      state := .dmt
      tskpri := tcb.itskpri
      wupcnt := 0
      suscnt := 0
      tskwait := .none }
  let tcb := c.tcb t
  if tcb.stkBase ≠ 0 ∧ tcb.stksz ≠ 0 then
    { c with mem := fillStack tcb.stkBase tcb.stksz c.mem }
  else c

def reschedule (s : Kernel cfg) : Kernel cfg :=
  let toptsk := rdyqTop s
  if s.schedtsk ≠ toptsk then { s with schedtsk := toptsk } else s

/-- Move task to READY state and insert to ready queue. -/
def taskMakeReady (t : TskIx cfg) (s : Kernel cfg) : Kernel cfg :=
  let s := s.setTcb t fun tcb => { tcb with state := .rdy }
  let (top, s) := rdyqInsert t s
  if top then { s with schedtsk := .qnode t } else s

theorem taskMakeReady_core {t : TskIx cfg} {s : Kernel cfg} :
    (taskMakeReady t s).core = s.core.setTcb t fun tcb => { tcb with state := .rdy } := by
  unfold taskMakeReady rdyqInsert
  dsimp only [Kernel.setLinks, Kernel.setRdyq, Kernel.setTcb, Kernel.setCore]
  split <;> rfl

/-- Move task from READY state. -/
def taskMakeUnready (t : TskIx cfg) (s : Kernel cfg) : Kernel cfg :=
  let s := rdyqRemove t s
  if s.schedtsk = .qnode t then { s with schedtsk := rdyqTop s } else s

theorem taskMakeUnready_core {t : TskIx cfg} {s : Kernel cfg} :
    (taskMakeUnready t s).core = s.core := by
  unfold taskMakeUnready
  dsimp only
  split <;> exact rdyqRemove_core

/-- Change task priority. -/
def taskChangePri (t : TskIx cfg) (priority : Int) (s : Kernel cfg) : Kernel cfg :=
  let s := rdyqRemove t s
  let s := s.setTcb t fun tcb => { tcb with tskpri := priority }
  let s := { s with schedtsk := rdyqTop s }
  let (top, s) := rdyqInsert t s
  if top then { s with schedtsk := .qnode t } else s

def rdyqRotateAt (priority : Int) (s : Kernel cfg) : Kernel cfg :=
  reschedule (rdyqRotate priority s)

def rdyqRotateCurrent (s : Kernel cfg) : Kernel cfg :=
  if s.schedtsk ≠ .null then reschedule (rdyqRotate (rdyqTopPri s) s) else s

/-- Gives the processor to `schedtsk`. -/
def dispatch (s : Kernel cfg) : Kernel cfg := { s with runtsk := s.schedtsk }

def taskInitialize (s : Kernel cfg) : Kernel cfg :=
  let s := { s with runtsk := .null, schedtsk := .null }
  let s := rdyqInit s
  let s := s.setLinks (kqueueInit .freeTcb)
  (List.finRange cfg.tnumTskid).foldl (fun s i =>
    (s.setTcb i fun tcb =>
      { tcb with
        tskid := i + 1
        state := .noexs
        stkBase := 0
        stksz := 0
        runTicks := 0
        name := [] }).setLinks (kqueueInsert (.qnode i) .freeTcb)) s

end Ittrium
