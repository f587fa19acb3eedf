import Ittrium.Kernel.Config
import Ittrium.Infra.Ring

/-!
# Control blocks and kernel state

Every `KQUEUE` of the kernel is a `Node`: the address of the structure it is embedded in says which
one it is. `qnode` is the first member of a `TCB` and `waitq` the first of an `OBJCB`, so
`.qnode t` also stands for the address of the `TCB` itself.

* `Core` — all data but the queue links and the ready queue
* `Kernel` — `Core`, the link cells, the ready queue and the two task pointers
-/

namespace Ittrium

open Infra

/-- An object control block, by table and position. -/
inductive ObjId (cfg : Config) where
  | sem (i : SemIx cfg)
  | flg (i : FlgIx cfg)
  | mbx (i : MbxIx cfg)
  deriving DecidableEq

/-- Addresses of `KQUEUE` structures, and the null pointer. -/
inductive Node (cfg : Config) where
  | null
  | qnode (t : TskIx cfg)
  | wtmeb (t : TskIx cfg)
  | priq (p : Int)
  | waitq (o : ObjId cfg)
  | freeTcb
  | freeSemcb
  | timerQueue
  deriving DecidableEq

/-- Addresses of `T_MSG` structures: packets of the application and the `mq_head` of a mailbox. -/
inductive MsgPtr (cfg : Config) where
  | null
  | pkt (m : Fin cfg.nmsg)
  | mqHead (i : MbxIx cfg)
  deriving DecidableEq

/-- Timer callbacks. `wait_release_tmout` is the only one the kernel hands to `timer_insert`. -/
inductive Callback where
  | waitReleaseTmout
  deriving DecidableEq

/-- `struct timer_event_block`, less its queue links. -/
structure TMEB (cfg : Config) where
  count : RELTIM
  callback : Option Callback
  arg : Node cfg

/-- `union WAITINFO`. -/
inductive WaitInfo where
  | flg (waiptn : FLGPTN) (wfmode : MODE) (pFlgptn : VP)
  | mbx (ppkMsg : VP)

/-! Members of the union. Each is read only of tasks that wrote the same arm. -/

def WaitInfo.waiptn : WaitInfo → FLGPTN
  | .flg w _ _ => w
  | .mbx _ => 0

def WaitInfo.wfmode : WaitInfo → MODE
  | .flg _ m _ => m
  | .mbx _ => 0

def WaitInfo.pFlgptn : WaitInfo → VP
  | .flg _ _ p => p
  | .mbx p => p

def WaitInfo.ppkMsg : WaitInfo → VP
  | .flg _ _ p => p
  | .mbx p => p

/-- Saved context: stack pointer and entry. -/
structure CTXB where
  sp : VP
  pc : VP

/-- `struct task_control_block`, less `qnode` and the links of `wtmeb`. -/
structure TCB (cfg : Config) where
  tskctxb : CTXB
  task : VP
  stk : VP
  stksz : SIZE
  stkBase : VP
  runTicks : UW
  tskid : Int
  exinf : VP
  tskatr : ATR
  name : List UInt8
  itskpri : Int
  tskpri : Int
  actcnt : Int
  state : Stat
  waitObj : Option (ObjId cfg)
  waitinfo : WaitInfo
  ercd : ER
  tskwait : TskWait
  wupcnt : Int
  suscnt : Int
  wtmeb : TMEB cfg

/-- `struct object_control_block`, less `waitq`. -/
structure OBJCB where
  objatr : ATR
  state : Stat

structure SEMCB where
  obj : OBJCB
  semcnt : Int
  maxsem : Int

structure FLGCB where
  obj : OBJCB
  flgptn : FLGPTN

/-- The link word of `mq_head` is the cell `.mqHead i` of `Core.msgque`. -/
structure MBXCB (cfg : Config) where
  obj : OBJCB
  mqTail : MsgPtr cfg

/-- `SYSTIM`. -/
structure SYSTIM where
  stLow : UW
  stHigh : UW
  deriving DecidableEq

/-- The kernel's data without the queues, and the memory its callers point it at. -/
structure Core (cfg : Config) where
  tcb : TskIx cfg → TCB cfg
  semcb : SemIx cfg → SEMCB
  flgcb : FlgIx cfg → FLGCB
  mbxcb : MbxIx cfg → MBXCB cfg
  /-- Bytes of the task stacks. -/
  mem : VP → UInt8
  /-- `FLGPTN` variables a `p_flgptn` points at. -/
  flgvar : VP → FLGPTN
  /-- `T_MSG *` variables a `ppk_msg` points at. -/
  msgvar : VP → MsgPtr cfg
  /-- The link word `msgque[0]` of every message header. -/
  msgque : MsgPtr cfg → MsgPtr cfg
  /-- The `msgpri` of every packet. -/
  msgpri : Fin cfg.nmsg → Int
  systemTicks : SYSTIM
  timerNesting : Int
  telemetryWallTicks : UW
  telemetryIdleTicks : UW

/-- `struct rdyq`, less the heads `priq`. -/
structure RDYQ where
  topPriority : Int
  bitmap : Int → UINT

structure Kernel (cfg : Config) where
  core : Core cfg
  links : Links (Node cfg)
  rdyq : RDYQ
  runtsk : Node cfg
  schedtsk : Node cfg

variable {cfg : Config}

/-! ## Updates -/

namespace Core

def setTcb (t : TskIx cfg) (f : TCB cfg → TCB cfg) (c : Core cfg) : Core cfg :=
  { c with tcb := Function.update c.tcb t (f (c.tcb t)) }

def setSemcb (i : SemIx cfg) (f : SEMCB → SEMCB) (c : Core cfg) : Core cfg :=
  { c with semcb := Function.update c.semcb i (f (c.semcb i)) }

def setFlgcb (i : FlgIx cfg) (f : FLGCB → FLGCB) (c : Core cfg) : Core cfg :=
  { c with flgcb := Function.update c.flgcb i (f (c.flgcb i)) }

def setMbxcb (i : MbxIx cfg) (f : MBXCB cfg → MBXCB cfg) (c : Core cfg) : Core cfg :=
  { c with mbxcb := Function.update c.mbxcb i (f (c.mbxcb i)) }

/-- `obj` member of a control block. -/
def objcb (c : Core cfg) : ObjId cfg → OBJCB
  | .sem i => (c.semcb i).obj
  | .flg i => (c.flgcb i).obj
  | .mbx i => (c.mbxcb i).obj

end Core

namespace Kernel

def setCore (f : Core cfg → Core cfg) (s : Kernel cfg) : Kernel cfg := { s with core := f s.core }

def setLinks (f : Links (Node cfg) → Links (Node cfg)) (s : Kernel cfg) : Kernel cfg :=
  { s with links := f s.links }

def setRdyq (f : RDYQ → RDYQ) (s : Kernel cfg) : Kernel cfg := { s with rdyq := f s.rdyq }

def setTcb (t : TskIx cfg) (f : TCB cfg → TCB cfg) (s : Kernel cfg) : Kernel cfg :=
  s.setCore (Core.setTcb t f)

end Kernel

/-! ## Calls that do not come back -/

/-- Why a call has no result: what the C code does then is undefined or does not end. -/
inductive Fault where
  /-- A table is accessed outside its bounds. -/
  | outOfTable
  /-- A pointer is used as the address of a structure it is not the address of. -/
  | badPointer
  /-- A loop never ends. -/
  | diverge
  deriving DecidableEq, Repr

abbrev Exec (α : Type) := Except Fault α

/-- The `TCB` a pointer is the address of. -/
def tcbOf : Node cfg → Exec (TskIx cfg)
  | .qnode t => .ok t
  | _ => .error .badPointer

/-- `&table[id - 1]` in a table of `n` entries. -/
def entryOf (n : Nat) (id : Int) : Exec (Fin n) :=
  if h : 0 ≤ id - 1 ∧ (id - 1).toNat < n then .ok ⟨(id - 1).toNat, h.2⟩ else .error .outOfTable

/-- The ID of an entry. -/
theorem id_of_entryOf {n : Nat} {id : Int} {i : Fin n} (h : entryOf n id = .ok i) :
    id = i + 1 ∧ 1 ≤ id ∧ id ≤ n := by
  unfold entryOf at h
  split at h
  · next hid =>
    obtain rfl := Except.ok.inj h
    dsimp only
    omega
  · cases h

theorem entryOf_id {n : Nat} (i : Fin n) : entryOf n ((i : Int) + 1) = .ok i := by
  have hi := i.isLt
  unfold entryOf
  rw [dif_pos (by omega)]
  congr 1
  apply Fin.ext
  simp

/-! What an ID stands for, as an object. -/

section

variable {ι α : Type} {f : ι → α} {x : Exec ι} {y : α}

theorem of_toOption_map (h : x.toOption.map f = some y) : ∃ i, x = .ok i ∧ f i = y := by
  cases x with
  | error e => cases h
  | ok i => exact ⟨i, rfl, Option.some.inj h⟩

theorem ok_of_toOption_map (hf : ∀ i j, f i = f j → i = j) {i : ι}
    (h : x.toOption.map f = some (f i)) : x = .ok i := by
  obtain ⟨j, hj, he⟩ := of_toOption_map h
  rw [hj, hf j i he]

theorem toOption_map_ne (hf : ∀ i, f i ≠ y) : x.toOption.map f ≠ some y := by
  intro h
  obtain ⟨i, -, he⟩ := of_toOption_map h
  exact hf i he

end

end Ittrium
