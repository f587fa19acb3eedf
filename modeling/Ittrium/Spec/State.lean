import Ittrium.Kernel.Calls
import Ittrium.Infra.StableInsert
import Mathlib.Data.Int.Order.Basic

/-!
# The kernel over lists

What the queues are for: a task stands in a line, a line is a list. Links, ready bitmap and
`schedtsk` are gone; the task to run is the first one of the most urgent non-empty ready line.
All other data is the `Core` of the kernel itself.

* `Model` — the state
* `Model.makeReady`, `Model.startWait`, `Model.release`, ... — the state changes of a task
* `Inv` — which task stands where, and what its `TCB` then holds; `Apart` while one is moved
-/

namespace Ittrium.Spec

open Infra

/-- The lines tasks stand in. -/
inductive Line (cfg : Config) where
  | ready (p : Int)
  | waitq (o : ObjId cfg)
  | timer
  | free
  deriving DecidableEq

structure Model (cfg : Config) where
  core : Core cfg
  queue : Line cfg → List (TskIx cfg)
  freeSem : List (SemIx cfg)
  runtsk : Option (TskIx cfg)

variable {cfg : Config}

/-! ## The task to run -/

/-- The least priority with a ready task, `TMAX_TPRI` if there is none. -/
def topPri (cfg : Config) (q : Int → List (TskIx cfg)) : Int :=
  match (List.range cfg.tmaxTpri).find? fun (p : Nat) => q p ≠ [] with
  | some p => p
  | none => cfg.tmaxTpri

/-- The task to run. -/
def topOf (q : Int → List (TskIx cfg)) : Option (TskIx cfg) :=
  if topPri cfg q = cfg.tmaxTpri then none else (q (topPri cfg q)).head?

namespace Model

def top (a : Model cfg) : Option (TskIx cfg) := topOf fun p => a.queue (.ready p)

/-! ## Lines and control blocks -/

def setCore (f : Core cfg → Core cfg) (a : Model cfg) : Model cfg := { a with core := f a.core }

def setTcb (t : TskIx cfg) (f : TCB cfg → TCB cfg) (a : Model cfg) : Model cfg :=
  a.setCore (Core.setTcb t f)

/-- `t` joins the end of a line. -/
def enq (l : Line cfg) (t : TskIx cfg) (a : Model cfg) : Model cfg :=
  { a with queue := Function.update a.queue l (a.queue l ++ [t]) }

/-- `t` joins a line behind all tasks of its own priority or a more urgent one. -/
def enqPri (l : Line cfg) (t : TskIx cfg) (a : Model cfg) : Model cfg :=
  { a with
    queue := Function.update a.queue l
      (insertStable (fun u => (a.core.tcb u).tskpri) t (a.queue l)) }

/-- `t` leaves a line. -/
def deq (l : Line cfg) (t : TskIx cfg) (a : Model cfg) : Model cfg :=
  { a with queue := Function.update a.queue l ((a.queue l).erase t) }

/-- The first task of a line goes to its end. -/
def rotate (l : Line cfg) (a : Model cfg) : Model cfg :=
  { a with queue := Function.update a.queue l ((a.queue l).rotate 1) }

/-! ## State changes of a task -/

/-- `t` leaves the line of its object, if it waits for one. -/
def deqObj (t : TskIx cfg) (a : Model cfg) : Model cfg :=
  match (a.core.tcb t).waitObj with
  | some o => a.deq (.waitq o) t
  | none => a

/-- `t` leaves its object's line and the timer queue. -/
def cancel (t : TskIx cfg) (a : Model cfg) : Model cfg := (a.deq .timer t).deqObj t

def makeReady (t : TskIx cfg) (a : Model cfg) : Model cfg :=
  (a.setTcb t fun tcb => { tcb with state := .rdy }).enq (.ready (a.core.tcb t).tskpri) t

def makeUnready (t : TskIx cfg) (a : Model cfg) : Model cfg :=
  a.deq (.ready (a.core.tcb t).tskpri) t

/-- A task whose wait is over is ready, or suspended if it was suspended as well. -/
def leaveWait (t : TskIx cfg) (a : Model cfg) : Model cfg :=
  let a := a.setTcb t fun tcb => { tcb with tskwait := .none }
  if (a.core.tcb t).state = .wai then a.makeReady t
  else a.setTcb t fun tcb => { tcb with state := .sus }

/-- The wait of `t` ends with the result its `TCB` holds. -/
def endWait (t : TskIx cfg) (a : Model cfg) : Model cfg := (a.cancel t).leaveWait t

/-- The wait of `t` ends with result `e`. -/
def release (t : TskIx cfg) (e : ER) (a : Model cfg) : Model cfg :=
  (a.setTcb t fun tcb => { tcb with ercd := e }).endWait t

/-- The timer of `t` is set; without a timeout `t` does not join the timer queue. -/
def startTimer (t : TskIx cfg) (tmout : TMO) (a : Model cfg) : Model cfg :=
  let a := a.setTcb t fun tcb =>
    { tcb with
      wtmeb := { tcb.wtmeb with callback := some .waitReleaseTmout, arg := .qnode t } }
  if tmout = tmoFevr then a
  else
    (a.setTcb t fun tcb => { tcb with wtmeb := { tcb.wtmeb with count := tmout.signExtend 32 } })
      |>.enq .timer t

/-- The ready task `t` begins to wait. -/
def startWait (t : TskIx cfg) (tmout : TMO) (a : Model cfg) : Model cfg :=
  ((a.makeUnready t).setTcb t fun tcb => { tcb with state := .wai }).startTimer t tmout

/-- The ready task `t` begins to wait for an object. -/
def objWait (t : TskIx cfg) (o : ObjId cfg) (tmout : TMO) (a : Model cfg) : Model cfg :=
  let a := (a.setTcb t fun tcb => { tcb with waitObj := some o }).startWait t tmout
  if (a.core.objcb o).objatr &&& taTpri ≠ 0 then a.enqPri (.waitq o) t else a.enq (.waitq o) t

/-- All waiting tasks of an object are released with result `E_DLT`. -/
def releaseAll (o : ObjId cfg) (a : Model cfg) : Model cfg :=
  (a.queue (.waitq o)).foldl (fun a t => a.release t .dlt) a

def dispatch (a : Model cfg) : Model cfg := { a with runtsk := a.top }

end Model

/-! ## The invariant -/

/-- A priority index is one of a ready line. -/
def LinePri (cfg : Config) (p : Int) : Prop := 0 ≤ p ∧ p < cfg.tmaxTpri

/-- What a control block holds in each state. -/
structure TcbInv (tcb : TCB cfg) : Prop where
  notRun : tcb.state ≠ .run
  itskpri : tcb.state ≠ .noexs → LinePri cfg tcb.itskpri
  tskpri : tcb.state ≠ .noexs → LinePri cfg tcb.tskpri
  /-- The suspension count is positive exactly in the suspended states. -/
  suscnt : tcb.state ≠ .noexs →
    0 ≤ tcb.suscnt ∧ (0 < tcb.suscnt ↔ tcb.state = .sus ∨ tcb.state = .was)
  /-- Only a task that sleeps or is delayed has a reason for waiting. -/
  tskwait : tcb.state ≠ .noexs →
    (tcb.tskwait ≠ .none ↔ tcb.state.waiting ∧ tcb.waitObj = none)
  /-- A task that waits for an object has the result of a timeout until it is released. -/
  ercd : tcb.state.waiting → tcb.waitObj ≠ none → tcb.ercd = .tmout

/-- What holds of a task, `tcb` being its control block and `on` the lines it stands in. -/
structure TaskInv (t : TskIx cfg) (tcb : TCB cfg) (on : Line cfg → Prop) : Prop
    extends TcbInv tcb where
  ready : ∀ p, on (.ready p) ↔ tcb.state = .rdy ∧ tcb.tskpri = p
  waitq : ∀ o, on (.waitq o) ↔ tcb.state.waiting ∧ tcb.waitObj = some o
  timer : on .timer → tcb.state.waiting ∧
    tcb.wtmeb.callback = some .waitReleaseTmout ∧ tcb.wtmeb.arg = .qnode t
  free : on .free ↔ tcb.state = .noexs

/-- What holds of the lines apart from who stands where. -/
structure LinesInv (a : Model cfg) : Prop where
  nodup : ∀ l, (a.queue l).Nodup
  /-- Tasks wait for existing objects only. -/
  exists_of_waitq : ∀ o t, t ∈ a.queue (.waitq o) → (a.core.objcb o).state ≠ .noexs
  mem_freeSem : ∀ i, i ∈ a.freeSem ↔ (a.core.semcb i).obj.state = .noexs
  freeSem_nodup : a.freeSem.Nodup

/-- Every task stands where its `TCB` says. -/
structure Settled (a : Model cfg) : Prop extends LinesInv a where
  task : ∀ t, TaskInv t (a.core.tcb t) fun l => t ∈ a.queue l

/-- `t` stands in no line, every other task where its `TCB` says. -/
structure Apart (t : TskIx cfg) (a : Model cfg) : Prop extends LinesInv a where
  nowhere : ∀ l, t ∉ a.queue l
  task : ∀ u, u ≠ t → TaskInv u (a.core.tcb u) fun l => u ∈ a.queue l

/-- **The invariant of the kernel.** -/
structure Inv (a : Model cfg) : Prop extends Settled a where
  /-- The running task is ready. -/
  runtsk : ∀ t, a.runtsk = some t → (a.core.tcb t).state = .rdy
  timerNesting : a.core.timerNesting = 0

end Ittrium.Spec
