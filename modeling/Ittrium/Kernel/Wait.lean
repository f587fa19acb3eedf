import Ittrium.Kernel.Task

/-!
# `wait.h`, `wait.c` and `timer.c`

A task waits with its `wtmeb` in the timer queue, or linked to itself when there is no timeout,
and with its `qnode` in the wait queue of an object, or linked to itself when there is none.
-/

namespace Ittrium

open Infra

variable {cfg : Config}

/-! ## Leaving a wait -/

/-- `WAITING` to `READY`, `WAITING-SUSPENDED` to `SUSPENDED`. -/
def taskLeaveWait (t : TskIx cfg) (s : Kernel cfg) : Kernel cfg :=
  let s := s.setTcb t fun tcb => { tcb with tskwait := .none }
  if (s.core.tcb t).state = .wai then taskMakeReady t s
  else s.setTcb t fun tcb => { tcb with state := .sus }

def timerDelete (t : TskIx cfg) (s : Kernel cfg) : Kernel cfg :=
  s.setLinks (kqueueRemove (.wtmeb t))

def waitCancel (t : TskIx cfg) (s : Kernel cfg) : Kernel cfg :=
  (timerDelete t s).setLinks (kqueueRemove (.qnode t))

def waitRelease (t : TskIx cfg) (s : Kernel cfg) : Kernel cfg :=
  taskLeaveWait t ((timerDelete t s).setLinks (kqueueRemove (.qnode t)))

def waitReleaseOk (t : TskIx cfg) (s : Kernel cfg) : Kernel cfg :=
  waitRelease t (s.setTcb t fun tcb => { tcb with ercd := .ok })

def waitReleaseTmout (t : TskIx cfg) (s : Kernel cfg) : Kernel cfg :=
  taskLeaveWait t (s.setLinks (kqueueRemove (.qnode t)))

/-- `while (!kqueue_empty(waitq))`, at most `n` times. -/
def waitDeleteLoop (waitq : Node cfg) : Nat → Kernel cfg → Exec (Kernel cfg)
  | 0, _ => .error .diverge
  | n + 1, s =>
    if kqueueEmpty waitq s.links then .ok s else do
      let t ← tcbOf (s.links.next waitq)
      waitDeleteLoop waitq n (waitRelease t (s.setTcb t fun tcb => { tcb with ercd := .dlt }))

/-- A ring of task nodes holds at most all of them, so more rounds mean that it is no ring. -/
def waitDelete (waitq : Node cfg) (s : Kernel cfg) : Exec (Kernel cfg) :=
  waitDeleteLoop waitq (cfg.tnumTskid + 1) s

/-- The first waiting task's ID, or `FALSE`. -/
def waitTskid (waitq : Node cfg) (s : Kernel cfg) : Exec Int :=
  if kqueueEmpty waitq s.links then .ok 0 else do
    let t ← tcbOf (s.links.next waitq)
    .ok (s.core.tcb t).tskid

/-! ## Starting a wait -/

/-- The calling task; using a null `runtsk` is a fault. -/
def runTcb (s : Kernel cfg) : Exec (TskIx cfg) := tcbOf s.runtsk

def timerInsert (t : TskIx cfg) (tmout : TMO) (callback : Option Callback) (arg : Node cfg)
    (s : Kernel cfg) : Kernel cfg :=
  let s := s.setTcb t fun tcb =>
    { tcb with wtmeb := { tcb.wtmeb with callback := callback, arg := arg } }
  if tmout = tmoFevr then s.setLinks (kqueueInit (.wtmeb t))
  else
    (s.setTcb t fun tcb => { tcb with wtmeb := { tcb.wtmeb with count := tmout.signExtend 32 } })
      |>.setLinks (kqueueInsert (.wtmeb t) .timerQueue)

/-- `make_wait` of the running task `t`. -/
def makeWait (t : TskIx cfg) (tmout : TMO) (s : Kernel cfg) : Kernel cfg :=
  let s :=
    match (s.core.tcb t).state with
    | .run | .rdy => (taskMakeUnready t s).setTcb t fun tcb => { tcb with state := .wai }
    | .sus => s.setTcb t fun tcb => { tcb with state := .was }
    | _ => s
  timerInsert t tmout (some .waitReleaseTmout) (.qnode t) s

/-- `for (entry = ...; entry != queue; entry = entry->next)`, at most `n` times. -/
def kqueueFindPriLoop (queue : Node cfg) (prio : Int) (s : Kernel cfg) :
    Nat → Node cfg → Exec (Node cfg)
  | 0, _ => .error .diverge
  | n + 1, entry =>
    if entry = queue then .ok entry else do
      let t ← tcbOf entry
      if (s.core.tcb t).tskpri > prio then .ok entry
      else kqueueFindPriLoop queue prio s n (s.links.next entry)

def kqueueFindPri (queue : Node cfg) (prio : Int) (s : Kernel cfg) : Exec (Node cfg) :=
  kqueueFindPriLoop queue prio s (cfg.tnumTskid + 1) (s.links.next queue)

def kqueueInsertPri (t : TskIx cfg) (queue : Node cfg) (s : Kernel cfg) : Exec (Kernel cfg) := do
  let q ← kqueueFindPri queue (s.core.tcb t).tskpri s
  .ok (s.setLinks (kqueueInsert (.qnode t) q))

/-- `obj_make_wait` of the running task `t`. -/
def objMakeWait (t : TskIx cfg) (o : ObjId cfg) (tmout : TMO) (s : Kernel cfg) :
    Exec (Kernel cfg) :=
  let s := s.setTcb t fun tcb => { tcb with waitObj := some o }
  let s := makeWait t tmout s
  if (s.core.objcb o).objatr &&& taTpri ≠ 0 then kqueueInsertPri t (.waitq o) s
  else .ok (s.setLinks (kqueueInsert (.qnode t) (.waitq o)))

/-! ## The tick -/

def timerHwEnter (c : Core cfg) : Int × Core cfg :=
  let low := c.systemTicks.stLow + 1
  let ticks : SYSTIM :=
    if cfg.ticDeno = low then { stLow := 0, stHigh := c.systemTicks.stHigh + 1 }
    else { c.systemTicks with stLow := low }
  (c.timerNesting, { c with systemTicks := ticks, timerNesting := c.timerNesting + 1 })

def timerHwExit (c : Core cfg) : Core cfg :=
  if c.timerNesting ≠ 0 then { c with timerNesting := c.timerNesting - 1 } else c

/-- `(*(event->callback))(event->arg)`. -/
def runCallback (e : TMEB cfg) (s : Kernel cfg) : Exec (Kernel cfg) :=
  match e.callback with
  | some .waitReleaseTmout => do
    let t ← tcbOf e.arg
    .ok (waitReleaseTmout t s)
  | none => .ok s

/-- `while (event != (TMEB *)&timer_queue)`, at most `n` times. -/
def timerLoop : Nat → Node cfg → Kernel cfg → Exec (Kernel cfg)
  | 0, _, _ => .error .diverge
  | _ + 1, .timerQueue, s => .ok s
  | n + 1, .wtmeb t, s => do
    let next := s.links.next (.wtmeb t)
    let s := s.setTcb t fun tcb =>
      { tcb with wtmeb := { tcb.wtmeb with count := tcb.wtmeb.count - 1 } }
    if (s.core.tcb t).wtmeb.count = 0 then do
      let s := s.setLinks (kqueueRemove (.wtmeb t))
      let s ← runCallback (s.core.tcb t).wtmeb s
      timerLoop n next s
    else timerLoop n next s
  | _ + 1, _, _ => .error .badPointer

def timerHandler (s : Kernel cfg) : Exec (Kernel cfg) :=
  let event := s.links.next .timerQueue
  let (nesting, c) := timerHwEnter s.core
  let s := { s with core := c }
  if nesting ≠ 0 then .ok s else do
    let s := s.setCore fun c => { c with telemetryWallTicks := c.telemetryWallTicks + 1 }
    let s ←
      if s.runtsk ≠ .null then do
        let t ← runTcb s
        .ok (s.setTcb t fun tcb => { tcb with runTicks := tcb.runTicks + 1 })
      else .ok (s.setCore fun c => { c with telemetryIdleTicks := c.telemetryIdleTicks + 1 })
    let s ← timerLoop (cfg.tnumTskid + 1) event s
    .ok (s.setCore timerHwExit)

/-- `timer_initialize`, with the `start_hw_timer` of the port. -/
def timerInitialize (s : Kernel cfg) : Kernel cfg :=
  (s.setLinks (kqueueInit .timerQueue)).setCore fun c =>
    { c with timerNesting := 0, systemTicks := { stLow := 0, stHigh := 0 } }

end Ittrium
