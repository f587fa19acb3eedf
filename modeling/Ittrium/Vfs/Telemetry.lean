import Ittrium.Vfs.Ramfs
import Ittrium.Kernel.State

/-!
# `telemetry.c`

What the pseudo files show: the kernel's control blocks and counters, and some registers of the
processor. All of it may change between two calls.

* `Telemetry` — what is there to be shown
* `nextName` — the end of a `listdir` that goes through a table of names
-/

namespace Ittrium.Vfs

open Infra

/-- A text of the source. -/
def ascii (s : String) : Str := s.toList.map fun c => c.toNat.toUInt8

/-- What the build says: `CFG_USE_TSKNAME`, and the names of the interrupt vectors. -/
structure Board where
  useTskname : Bool
  irqVecName : Nat → Str

def telemetryIrqMax : Nat := 32

/-- `STACK_CANARY`. -/
def stackCanary : UInt8 := 0xa5

/-- What the pseudo files show. `heap` is `_sbrk(0) - &end`. Each call of `task_cpu_pct` and of
`idle_cpu_pct` loads `telemetry_wall_ticks` once more, and before the counter it divides: `taskWall`
and `idleWall` are what they load. -/
structure Telemetry (cfg : Config) where
  core : Core cfg
  taskWall : TskIx cfg → UW
  idleWall : UW
  runtsk : Option (TskIx cfg)
  schedtsk : Option (TskIx cfg)
  irqCount : Fin telemetryIrqMax → UW
  heap : UW
  currentEl : BitVec 64
  cntfrq : BitVec 64
  midr : BitVec 64
  sctlr : BitVec 64

variable {cfg : Config}

def taskStackUsed (tel : Telemetry cfg) (t : TCB cfg) : Nat :=
  if t.stkBase = 0 ∨ t.stksz = 0 then 0
  else
    let freeb := ((List.range t.stksz.toNat).takeWhile fun k =>
      tel.core.mem (t.stkBase + BitVec.ofNat 64 k) = stackCanary).length
    t.stksz.toNat - freeb

def taskStackPct (tel : Telemetry cfg) (t : TCB cfg) : Nat :=
  if t.stksz = 0 then 0 else taskStackUsed tel t * 100 / t.stksz.toNat

/-- `(ticks * 100ull + wall / 2ull) / wall`, as an `unsigned`. -/
def tickPct (ticks wall : UW) : Nat :=
  if wall = 0 then 0
  else (ticks.toNat * 100 + wall.toNat / 2) / wall.toNat % 2 ^ 32

/-- `task_cpu_pct`, which has loaded `wall` from `telemetry_wall_ticks` before it comes to the ticks
of the task. -/
def taskCpuPct (wall : UW) (t : TCB cfg) : Nat := tickPct t.runTicks wall

/-- `idle_cpu_pct`, which has loaded `wall` before `telemetry_idle_ticks`. -/
def idleCpuPct (wall : UW) (c : Core cfg) : Nat := tickPct c.telemetryIdleTicks wall

/-- The digits of a number, the last one first, as far as there is room. -/
def decDigits : Nat → Nat → Str
  | 0, _ => []
  | room + 1, v => if v = 0 then [] else (0x30 + v % 10).toUInt8 :: decDigits room (v / 10)

/-- A number as a text, from `room` bytes on the stack. -/
def decimal (room v : Nat) : Str := if v = 0 then ascii "0" else (decDigits room v).reverse

/-- The end of a `listdir`: the entry `idx` of a table that a null pointer ends. What is behind the
end is not part of the table. -/
def nextName (list : List Str) (nlen : Nat) (idx : Int) : Option ListResult :=
  if idx < 0 then none
  else
    match list[idx.toNat]? with
    | some name => (storeName name nlen).map fun s => .name ⟨s, idx + 1⟩
    | none => if idx = list.length then some .done else none

end Ittrium.Vfs
