import Ittrium.Infra.Run
import Ittrium.Infra.Window
import Mathlib.Algebra.Group.Nat.Defs

/-!
# The transmit queue of `virtio_net.c`

`vnet_tx`, called by the network thread, and the second loop of `vnet_process`, called by the driver
task, in atomic steps: a critical section, the test of the used index with the reading of the
identifier, and the increment of `tx_last_used` are one step each. The receive queue is left out,
and so is the loop of `vnet_task` around `vnet_process`, which may be called at any time here.

* `TxQueue` — the rings, the free list, the buffers, and the device's place in the rings
* `Reclaim` — where a task is in the loop that takes used descriptors back
* `Vnet.step` — a step of a task or of the device
-/

namespace Ittrium.Drv

def queueSize : Nat := 8
def bufSize : Nat := 1536

/-- `sizeof(struct virtio_net_hdr)`. -/
def hdrSize : Nat := 12

/-- `struct virtq_desc`. The address is that of the buffer with this number. -/
structure VirtqDesc where
  addr : Nat
  len : Nat
  flags : Nat
  next : Nat

/-- The variables of the transmit queue that the tasks and the device share. -/
structure TxQueue where
  txBuf : Nat → List UInt8
  txDesc : Nat → VirtqDesc
  /-- `tx_avail`. -/
  availIdx : BitVec 16
  availRing : Int → Nat
  /-- `tx_used`, with the `id` of each element. -/
  usedIdx : BitVec 16
  usedRing : Int → Nat
  txLastUsed : BitVec 16
  txFreeCount : Nat
  txFreeList : Nat → Nat
  /-- The device has read the available ring up to here. -/
  seen : BitVec 16
  /-- What it has read there and not used yet. -/
  flight : List Nat

/-- The place of an index in a ring. -/
def slot (idx : BitVec 16) : Int := (idx.toNat % queueSize : Nat)

namespace TxQueue

/-! ## Taking back -/

/-- `tx_free_list[tx_free_count++] = (uint8_t)di`, if there is room. -/
def push (di : Nat) (q : TxQueue) : TxQueue :=
  if q.txFreeCount < queueSize then
    { q with
      txFreeList := Function.update q.txFreeList q.txFreeCount (di % 2 ^ 8)
      txFreeCount := q.txFreeCount + 1 }
  else q

/-- `tx_last_used++`. -/
def next (q : TxQueue) : TxQueue := { q with txLastUsed := q.txLastUsed + 1 }

/-! ## Sending -/

/-- `tx_free_list[--tx_free_count]`. -/
def pop (q : TxQueue) : Nat × TxQueue :=
  (q.txFreeList (q.txFreeCount - 1), { q with txFreeCount := q.txFreeCount - 1 })

/-- The header, which is zero, and the data are stored in the buffer. -/
def fill (idx : Nat) (data : List UInt8) (q : TxQueue) : TxQueue :=
  { q with
    txBuf := Function.update q.txBuf idx (List.replicate hdrSize 0 ++ data ++
      (q.txBuf idx).drop (hdrSize + data.length))
    txDesc := Function.update q.txDesc idx ⟨idx, hdrSize + data.length, 0, 0⟩ }

/-- The descriptor is made available to the device. -/
def publish (idx : Nat) (q : TxQueue) : TxQueue :=
  { q with
    availRing := Function.update q.availRing (slot q.availIdx) idx
    availIdx := q.availIdx + 1 }

/-! ## The device -/

/-- The device reads the next element of the available ring. -/
def fetch (q : TxQueue) : Option TxQueue :=
  if q.seen ≠ q.availIdx then
    some { q with flight := q.flight ++ [q.availRing (slot q.seen)], seen := q.seen + 1 }
  else none

/-- It is done with one of those it has read. -/
def use (d : Nat) (q : TxQueue) : Option TxQueue :=
  if d ∈ q.flight then
    some { q with
      flight := q.flight.erase d
      usedRing := Function.update q.usedRing (slot q.usedIdx) d
      usedIdx := q.usedIdx + 1 }
  else none

end TxQueue

/-! ## Where the tasks are -/

/-- In the loop `while (tx_last_used != tx_used.idx)`. -/
inductive Reclaim where
  | test
  | push (di : Nat)
  | next

/-- The network thread. -/
inductive NetPc where
  | idle
  | reclaim (p : Reclaim) (data : List UInt8)
  | pop (data : List UInt8)
  | fill (idx : Nat) (data : List UInt8)
  | publish (idx len : Nat)

/-- The driver task. -/
inductive DrvPc where
  | idle
  | reclaim (p : Reclaim)

structure Vnet where
  gReady : Bool
  q : TxQueue
  net : NetPc
  drv : DrvPc

/-- One step of the loop. `none` when it ends. -/
def reclaimStep (p : Reclaim) (q : TxQueue) : Option Reclaim × TxQueue :=
  match p with
  | .test =>
    if q.txLastUsed ≠ q.usedIdx then
      (some (.push (q.usedRing (slot q.txLastUsed) % 2 ^ 16)), q)
    else (none, q)
  | .push di => (some .next, q.push di)
  | .next => (some .test, q.next)

/-! ## The system -/

inductive Act where
  /-- The network thread calls `vnet_tx`, with data or a null pointer. -/
  | vnetTx (data : Option (List UInt8))
  /-- The driver task comes to the loop of `vnet_process`. -/
  | vnetProcess
  | net
  | drv
  | fetch
  | use (d : Nat)

/-- A step of the network thread in `vnet_tx`, with the result it returns. -/
def netStep (v : Vnet) : Option (Vnet × Option Int) :=
  match v.net with
  | .idle => none
  | .reclaim p data =>
    let (p, q) := reclaimStep p v.q
    match p with
    | some p => some ({ v with q, net := .reclaim p data }, none)
    | none => some ({ v with q, net := .pop data }, none)
  | .pop data =>
    if v.q.txFreeCount = 0 then some ({ v with net := .idle }, some (-1))
    else
      let (idx, q) := v.q.pop
      some ({ v with q, net := .fill idx data }, none)
  | .fill idx data => some ({ v with q := v.q.fill idx data, net := .publish idx data.length }, none)
  | .publish idx len => some ({ v with q := v.q.publish idx, net := .idle }, some len)

/-- A step of the driver task in the loop. -/
def drvStep (v : Vnet) : Option Vnet :=
  match v.drv with
  | .idle => none
  | .reclaim p =>
    let (p, q) := reclaimStep p v.q
    match p with
    | some p => some { v with q, drv := .reclaim p }
    | none => some { v with q, drv := .idle }

/-- An object in memory is shorter than `2 ^ 64 - hdrSize` bytes, so the sum in the first test of
`vnet_tx` is exact. -/
def Vnet.step (v : Vnet) : Act → Option (Vnet × Option Int)
  | .vnetTx data =>
    match v.net, data with
    | .idle, some data =>
      if !v.gReady ∨ data.length = 0 ∨ data.length + hdrSize > bufSize then some (v, some (-1))
      else some ({ v with net := .reclaim .test data }, none)
    | .idle, none => some (v, some (-1))
    | _, _ => none
  | .vnetProcess =>
    match v.drv with
    | .idle => some ({ v with drv := .reclaim .test }, none)
    | _ => none
  | .net => netStep v
  | .drv => (drvStep v).map fun v => (v, none)
  | .fetch => (v.q.fetch).map fun q => ({ v with q }, none)
  | .use d => (v.q.use d).map fun q => ({ v with q }, none)

/-- After `vnet_init`, with what the memory of the buffers and descriptors holds. -/
structure Start (v : Vnet) : Prop where
  net : v.net = .idle
  drv : v.drv = .idle
  availIdx : v.q.availIdx = 0
  usedIdx : v.q.usedIdx = 0
  txLastUsed : v.q.txLastUsed = 0
  txFreeCount : v.q.txFreeCount = queueSize
  txFreeList : ∀ i < queueSize, v.q.txFreeList i = i % 2 ^ 8
  seen : v.q.seen = 0
  flight : v.q.flight = []

end Ittrium.Drv
