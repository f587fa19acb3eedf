import Ittrium.Drv.Uart
import Ittrium.Drv.VirtioNet

/-!
# The receive queue of `virtio_net.c`

The loop of `vnet_task` with the first loop of `vnet_process`, the interrupt handler and the device,
from the end of `vnet_init` on. The test of the used index with the reading of the element, the call
of `g_vdev.rx`, and each access to a ring or to the eventflag are one step each. The handler takes
two, and the device may act between them; no task does. The second loop of `vnet_process` is in
`Ittrium/Drv/VirtioNet.lean`.

* `Flag.setKept`, `Flag.waiKept` — the eventflag, which has no `TA_CLR`
* `RxQueue` — the rings, the buffers, and the device's place in the rings
* `Nic.step` — a step of the driver task, of the handler or of the device
-/

namespace Ittrium.Drv

/-! ## The eventflag -/

namespace Flag

variable {τ : Type}

/-- `_set_flg`: the tasks that wait for one of the bits are released. -/
def setKept (setptn : FLGPTN) (f : Flag τ) : List τ × Flag τ :=
  let ptn := f.flgptn ||| setptn
  ((f.waitq.filter fun w => ptn &&& w.2 ≠ 0).map Prod.fst,
    ⟨ptn, f.waitq.filter fun w => ptn &&& w.2 = 0⟩)

/-- `__wai_flg` with `TWF_ORW` where the pattern is there. -/
def waiKept (waiptn : FLGPTN) (f : Flag τ) : Option (Flag τ) :=
  if f.flgptn &&& waiptn ≠ 0 then some f else none

def clr (clrptn : FLGPTN) (f : Flag τ) : Flag τ := { f with flgptn := f.flgptn &&& clrptn }

theorem or_and_ne_zero (flgptn : FLGPTN) {waiptn : FLGPTN} (h : waiptn ≠ 0) :
    (flgptn ||| waiptn) &&& waiptn ≠ 0 := by
  have hself : (flgptn ||| waiptn) &&& waiptn = waiptn := by
    ext i hi
    simpa using fun hy => Or.inr hy
  rw [hself]
  exact h

end Flag

def virtioFlgRx : FLGPTN := 1 <<< 0

/-! ## The rings -/

def vringDescFWrite : Nat := 2

/-- `struct virtq_used_elem`. -/
structure VirtqUsedElem where
  id : Nat
  len : Nat

/-- The variables of the receive queue that the driver task and the device share. -/
structure RxQueue where
  rxBuf : Nat → List UInt8
  rxDesc : Nat → VirtqDesc
  /-- `rx_avail`. -/
  availIdx : BitVec 16
  availRing : Int → Nat
  /-- `rx_used`. -/
  usedIdx : BitVec 16
  usedRing : Int → VirtqUsedElem
  rxLastUsed : BitVec 16
  /-- The device has read the available ring up to here. -/
  seen : BitVec 16
  /-- What it has read there and not used yet. -/
  flight : List Nat

namespace RxQueue

/-- `rx_last_used++`. -/
def next (q : RxQueue) : RxQueue := { q with rxLastUsed := q.rxLastUsed + 1 }

/-- `rx_fill` up to the first barrier. -/
def fill (idx : Nat) (q : RxQueue) : RxQueue :=
  { q with
    rxDesc := Function.update q.rxDesc idx ⟨idx, bufSize, vringDescFWrite, 0⟩
    availRing := Function.update q.availRing (slot q.availIdx) idx }

/-- The rest of it. The device may look for descriptors at any time, so the notification is left
out. -/
def publish (q : RxQueue) : RxQueue := { q with availIdx := q.availIdx + 1 }

def rxFill (idx : Nat) (q : RxQueue) : RxQueue := (q.fill idx).publish

/-- What `vnet_init` does with the queue. -/
def vnetInit (q : RxQueue) : RxQueue :=
  (List.range queueSize).foldl (fun q i => q.rxFill i)
    { q with availIdx := 0, usedIdx := 0, rxLastUsed := 0, seen := 0, flight := [] }

/-- What `vnet_process` hands on: the frame behind the header. -/
def payload (di len : Nat) (q : RxQueue) : List UInt8 :=
  ((q.rxBuf di).drop hdrSize).take (len - hdrSize)

/-- The device reads the next element of the available ring. -/
def fetch (q : RxQueue) : Option RxQueue :=
  if q.seen ≠ q.availIdx then
    some { q with flight := q.flight ++ [q.availRing (slot q.seen)], seen := q.seen + 1 }
  else none

/-- It stores a header and a frame where one of the descriptors it has read says. -/
def receive (d : Nat) (bytes : List UInt8) (q : RxQueue) : Option RxQueue :=
  let desc := q.rxDesc d
  if d ∈ q.flight ∧ desc.flags = vringDescFWrite ∧ bytes.length ≤ desc.len then
    some { q with
      flight := q.flight.erase d
      rxBuf := Function.update q.rxBuf desc.addr
        (bytes ++ (q.rxBuf desc.addr).drop bytes.length)
      usedRing := Function.update q.usedRing (slot q.usedIdx) ⟨d, bytes.length⟩
      usedIdx := q.usedIdx + 1 }
  else none

end RxQueue

/-! ## The system -/

/-- Where the driver task is. -/
inductive NicPc where
  | wait
  /-- In `twai_flg`. -/
  | waiting
  | clear
  | test
  | deliver (di len : Nat)
  | next (di : Nat)
  | fill (di : Nat)
  | publish
  /-- The second loop of `vnet_process`. -/
  | transmit

structure Nic where
  q : RxQueue
  flag : Flag Unit
  pc : NicPc
  /-- `g_vdev.rx` is not null. -/
  rx : Bool
  /-- `VIRTIO_MMIO_INTERRUPT_STATUS` is not zero. -/
  pending : Bool
  /-- The handler has acknowledged the interrupt, and comes to `iset_flg`. -/
  inIrq : Bool

inductive NicAct where
  | task
  /-- `netdev_set_rx`, with a function or a null pointer. -/
  | netdevSetRx (fn : Bool)
  | fetch
  | receive (d : Nat) (bytes : List UInt8)
  /-- The device has used descriptors of the other queue. -/
  | transmitted
  /-- The handler acknowledges the interrupt. -/
  | irq
  | isetFlg

/-- What is done with a frame. -/
inductive Handed where
  | passed (data : List UInt8)
  | dropped
  deriving DecidableEq

namespace Nic

/-- The call of `g_vdev.rx`, if there is one. -/
def deliver (di len : Nat) (v : Nic) : Handed :=
  if len > hdrSize ∧ v.rx then .passed (v.q.payload di len) else .dropped

/-- The next step of the driver task. -/
def taskStep (v : Nic) : Option (Nic × Option Handed) :=
  match v.pc with
  | .wait =>
    match v.flag.waiKept virtioFlgRx with
    | some flag => some ({ v with flag, pc := .clear }, none)
    | none => some ({ v with flag := v.flag.block () virtioFlgRx, pc := .waiting }, none)
  | .waiting => none
  | .clear => some ({ v with flag := v.flag.clr (~~~virtioFlgRx), pc := .test }, none)
  | .test =>
    if v.q.rxLastUsed ≠ v.q.usedIdx then
      let e := v.q.usedRing (slot v.q.rxLastUsed)
      some ({ v with pc := .deliver (e.id % 2 ^ 16) e.len }, none)
    else some ({ v with pc := .transmit }, none)
  | .deliver di len => some ({ v with pc := .next di }, some (v.deliver di len))
  | .next di => some ({ v with q := v.q.next, pc := .fill di }, none)
  | .fill di => some ({ v with q := v.q.fill di, pc := .publish }, none)
  | .publish => some ({ v with q := v.q.publish, pc := .test }, none)
  | .transmit => some ({ v with pc := .wait }, none)

/-- `iset_flg`: a task that is released goes on behind `twai_flg`. -/
def isetFlg (v : Nic) : Nic :=
  let r := v.flag.setKept virtioFlgRx
  { v with flag := r.2, inIrq := false, pc := if r.1 = [] then v.pc else .clear }

/-- A step, with what the driver task does with a frame in it. -/
def step (v : Nic) : NicAct → Option (Nic × Option Handed)
  | .task => if v.inIrq then none else v.taskStep
  | .netdevSetRx fn => if v.inIrq then none else some ({ v with rx := fn }, none)
  | .fetch => (v.q.fetch).map fun q => ({ v with q }, none)
  | .receive d bytes => (v.q.receive d bytes).map fun q => ({ v with q, pending := true }, none)
  | .transmitted => some ({ v with pending := true }, none)
  | .irq => if v.inIrq then none else some ({ v with pending := false, inIrq := true }, none)
  | .isetFlg => if v.inIrq then some (v.isetFlg, none) else none

/-- After `vnet_init`: the driver task is at the beginning of its loop. -/
structure Start (v : Nic) : Prop where
  queue : ∃ q : RxQueue, (∀ i < queueSize, (q.rxBuf i).length = bufSize) ∧ v.q = q.vnetInit
  flgptn : v.flag.flgptn = 0
  waitq : v.flag.waitq = []
  pc : v.pc = .wait
  inIrq : v.inIrq = false

end Nic

end Ittrium.Drv
