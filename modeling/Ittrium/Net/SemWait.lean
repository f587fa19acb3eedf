import Ittrium.Net.Clock
import Ittrium.Properties.Semaphores
import Ittrium.Properties.Timeouts
import Ittrium.Spec.Handlers

/-!
# `sem_wait_ms` on the kernel

A wait that is too long for a `TMO` is a loop of waits of at most 10000 ticks.

* `SemWaiter.step` — a task in `sem_wait_ms`, and a kernel on which the others make their calls
* `waitedTicks`, `handed`, `slices` — what has happened since the call
* `Sliced` — what is true of these, and of what the function returns
-/

namespace Ittrium.Net

open Infra

variable {cfg : Config}

/-! ## The function -/

/-- Where the task is in `sem_wait_ms`. -/
inductive WaitPc where
  /-- `if (timeout_ms == 0)`. -/
  | entered (timeoutMs : UW)
  /-- In `wai_sem`. -/
  | forever
  /-- `while (left > 0)`. -/
  | round (left : UW)
  /-- In `twai_sem`. -/
  | inSlice (left : UW) (slice : TMO)
  | returned (er : ER)
  deriving DecidableEq

def WaitPc.isReturned : WaitPc → Bool
  | .returned _ => true
  | _ => false

/-- `slice`, as a `TMO`. -/
def sliceTmo (left : UW) : TMO := (sliceOf left).setWidth 16

/-- What follows `er = twai_sem(id, slice);`. -/
def afterSlice (left : UW) (slice : TMO) (er : ER) : WaitPc :=
  if er = .ok then .returned .ok
  else if er ≠ .tmout then .returned er
  else .round (left - slice.signExtend 32)

/-- A kernel, and where one of its tasks is in `sem_wait_ms`. -/
structure SemWaiter (cfg : Config) where
  kernel : Kernel cfg
  pc : WaitPc

inductive WaitAct (cfg : Config) where
  /-- A call of another task or of a handler. -/
  | other (c : Call cfg)
  /-- The task goes on. -/
  | own

/-- The call is made. If it gives a result, the task goes on with it. -/
def serviceCall (c : Call cfg) (goOn : ER → WaitPc) (blocked : WaitPc) (s : Kernel cfg) :
    Option (SemWaiter cfg × Option (Label cfg)) :=
  match exec c s with
  | .ok (s', .er er) => some (⟨s', goOn er⟩, some (c, .er er))
  | .ok (s', r) => some (⟨s', blocked⟩, some (c, r))
  | .error _ => none

namespace SemWaiter

/-- The next step of the task `t`, which is the running one. -/
def own (semid : Int) (t : TskIx cfg) (w : SemWaiter cfg) :
    Option (SemWaiter cfg × Option (Label cfg)) :=
  match w.pc with
  | .entered timeoutMs =>
    if timeoutMs = 0 then serviceCall (.waiSem semid) .returned .forever w.kernel
    else some (⟨w.kernel, .round timeoutMs⟩, none)
  | .forever => some (⟨w.kernel, .returned (w.kernel.core.tcb t).ercd⟩, none)
  | .round left =>
    if left > 0 then
      serviceCall (.twaiSem semid (sliceTmo left)) (afterSlice left (sliceTmo left))
        (.inSlice left (sliceTmo left)) w.kernel
    else some (⟨w.kernel, .returned .tmout⟩, none)
  | .inSlice left slice => some (⟨w.kernel, afterSlice left slice (w.kernel.core.tcb t).ercd⟩, none)
  | .returned _ => none

def step (semid : Int) (t : TskIx cfg) (w : SemWaiter cfg) :
    WaitAct cfg → Option (SemWaiter cfg × Option (Label cfg))
  | .other c =>
    match exec c w.kernel with
    | .ok (s', r) => some (⟨s', w.pc⟩, some (c, r))
    | .error _ => none
  | .own => if w.kernel.runtsk = .qnode t then w.own semid t else none

end SemWaiter

/-! ## Runs -/

variable (semid : Int) (i : SemIx cfg) (t : TskIx cfg) (timeoutMs : UW)

/-- The call deletes the task. -/
def DeletesTask : Call cfg → Prop
  | .delTsk tskid => getTcb tskid = .ok t
  | _ => False

/-- What may happen before the task returns: calls that leave the semaphore and the task in
existence. While the task is the running one, the others are handlers. -/
def Allowed (w : SemWaiter cfg) : WaitAct cfg → Prop
  | .other c => w.pc.isReturned = false ∧ SoundCall w.kernel c ∧ ¬ Deletes (.sem i) c ∧
      ¬ DeletesTask t c ∧ (w.kernel.runtsk = .qnode t → Spec.fromHandler c = true)
  | .own => True

instance (c : Call cfg) : Decidable (DeletesTask t c) := by
  apply @Call.casesOn cfg (fun c => Decidable (DeletesTask t c)) c <;> intros <;>
    first | (change Decidable (_ = _); infer_instance) | exact .isFalse not_false

instance (w : SemWaiter cfg) (act : WaitAct cfg) : Decidable (Allowed i t w act) := by
  cases act <;> (unfold Allowed; infer_instance)

/-- The running task `t` calls `sem_wait_ms(semid, timeoutMs)`, after any run of the kernel. -/
structure Enters (w : SemWaiter cfg) : Prop where
  reached : ∃ tr, RunOf SoundCall tr w.kernel
  running : w.kernel.runtsk = .qnode t
  existing : (w.kernel.core.semcb i).obj.state ≠ .noexs
  pc : w.pc = .entered timeoutMs

abbrev WaitLabel (cfg : Config) := WaitAct cfg × Option (Label cfg)

abbrev WaitTrace (cfg : Config) := List (Event (SemWaiter cfg) (WaitLabel cfg))

abbrev SemWaitRun : WaitTrace cfg → SemWaiter cfg → Prop :=
  Run (Enters i t timeoutMs) fun w l w' => Allowed i t w l.1 ∧ w.step semid t l.1 = some (w', l.2)

/-! ## What has happened -/

def isTick : WaitLabel cfg → Bool
  | (_, some (.timerHandler, _)) => true
  | _ => false

def isOwn : WaitLabel cfg → Bool
  | (.own, _) => true
  | _ => false

/-- The task obtains a resource without waiting. -/
def isTaken : WaitLabel cfg → Bool
  | (.own, some (_, .er .ok)) => true
  | _ => false

/-- The timeout of a `twai_sem` of the task. -/
def passed : WaitLabel cfg → Option TMO
  | (.own, some (.twaiSem _ slice, _)) => some slice
  | _ => none

/-- The ticks that came while the task waited. -/
def waitedTicks (tr : WaitTrace cfg) : Nat :=
  tr.countP fun e => isTick e.label && waitsFor (.sem i) e.pre.kernel.core t

/-- The resources the task has been given. -/
def handed (tr : WaitTrace cfg) : Nat :=
  tr.countP fun e => isTaken e.label ||
    (leaves (.sem i) e.pre.kernel e.post.kernel t && (e.post.kernel.core.tcb t).ercd = .ok)

/-- The slices passed to `twai_sem`. -/
def slices (tr : WaitTrace cfg) : List TMO := tr.filterMap fun e => passed e.label

/-- Their sum. -/
def sliceSum (tr : WaitTrace cfg) : Nat := ((slices tr).map BitVec.toNat).sum

/-- The steps of the task. -/
def ownSteps (tr : WaitTrace cfg) : Nat := tr.countP fun e => isOwn e.label

/-- `sem_wait_ms` waits in slices for exactly the time it is given. -/
structure Sliced (tr : WaitTrace cfg) (w : SemWaiter cfg) : Prop where
  slice : ∀ k ∈ slices tr, 1 ≤ k.toInt ∧ k.toInt ≤ 32767
  /-- The task never waits longer than it is told to. -/
  sum : sliceSum tr ≤ timeoutMs.toNat
  ticks : waitedTicks i t tr ≤ timeoutMs.toNat
  /-- The loop comes to an end after so many slices and steps, and is not stuck before. -/
  rounds : 10000 * (slices tr).length < timeoutMs.toNat + 10000
  steps : ownSteps tr ≤ 2 * (slices tr).length + 2
  goesOn : w.kernel.runtsk = .qnode t → w.pc.isReturned = false →
    ∃ w' l, w.step semid t .own = some (w', l)
  /-- A signal that nobody waits for is kept, -/
  kept : ∀ c w', Allowed i t w (.other c) →
    w.step semid t (.other c) = some (w', some (c, .er .ok)) →
    Spec.Signals i c → waiters (.sem i) w.kernel = [] →
    (w'.kernel.core.semcb i).semcnt = (w.kernel.core.semcb i).semcnt + 1
  /-- and found at the beginning of the next slice. -/
  found : ∀ left w' l, w.pc = .round left → left ≠ 0 → 0 < (w.kernel.core.semcb i).semcnt →
    w.step semid t .own = some (w', l) → w'.pc = .returned .ok ∧
      (w'.kernel.core.semcb i).semcnt = (w.kernel.core.semcb i).semcnt - 1
  /-- The result is `E_OK` if the task has been given a resource before its time was up, and then it
  has been given one. Otherwise it is `E_TMOUT`, after the whole time and with none. -/
  result : ∀ er, w.pc = .returned er →
    er = .ok ∧ handed i t tr = 1 ∧ waitedTicks i t tr < timeoutMs.toNat ∨
    er = .tmout ∧ handed i t tr = 0 ∧ waitedTicks i t tr = timeoutMs.toNat ∧
      sliceSum tr = timeoutMs.toNat

end Ittrium.Net
