import Ittrium.Elf.Load
import Ittrium.Kernel.Calls
import Ittrium.Kernel.Context
import Mathlib.Algebra.GroupWithZero.Nat

/-!
# `elf_load.c`: modules

`elf_run` loads a file and starts a task at its entry point, `elf_kill` ends both. The tasks are
those of the kernel, and images and stacks are in the memory the kernel works on.

* `Sys` — the kernel, the heap and `g_mods`
* `elfRunBegin`, `elfRunEnd` — `elf_run` up to the end of `act_tsk`, and the rest
* `elfRun`, `elfKill`
-/

namespace Ittrium.Elf

open Infra

variable {cfg : Config}

/-! ## State -/

/-- `ELF_MODULES_MAX`. -/
def modulesMax (cfg : Config) : Nat := if 0 < cfg.trsvTskid then cfg.trsvTskid else 4

instance (cfg : Config) : NeZero (modulesMax cfg) :=
  ⟨by unfold modulesMax; split <;> omega⟩

/-- Positions in `g_mods`. -/
abbrev ModIx (cfg : Config) := Fin (modulesMax cfg)

/-- `struct elf_mod`. -/
structure ElfMod where
  tskid : Int
  img : ElfImage
  stack : VP
  stackOwned : Bool
  used : Bool
  deriving DecidableEq

/-- What `memset` with 0 leaves. -/
def ElfImage.zero : ElfImage := ⟨0, 0, 0, false⟩

def ElfMod.zero : ElfMod := ⟨0, .zero, 0, false, false⟩

structure Sys (cfg : Config) where
  kernel : Kernel cfg
  heap : List Block
  mods : ModIx cfg → ElfMod

inductive SysFault where
  | load (e : LoadFault)
  | kernel (e : Fault)
  deriving DecidableEq

abbrev SysExec (α : Type) := Except SysFault α

namespace Sys

def machine (s : Sys cfg) : Machine := ⟨s.kernel.core.mem, s.heap⟩

def withMachine (m : Machine) (s : Sys cfg) : Sys cfg :=
  { s with kernel := s.kernel.withMem m.mem, heap := m.heap }

def free (p : VP) (s : Sys cfg) : SysExec (Sys cfg) :=
  match freeBlock p s.heap with
  | some h => .ok { s with heap := h }
  | none => .error (.load .free)

def setMod (i : ModIx cfg) (m : ElfMod) (s : Sys cfg) : Sys cfg :=
  { s with mods := Function.update s.mods i m }

/-- A service call. -/
def call (c : Call cfg) (s : Sys cfg) : SysExec (Sys cfg × Ret cfg) :=
  match exec c s.kernel with
  | .ok (k, r) => .ok ({ s with kernel := k }, r)
  | .error e => .error (.kernel e)

end Sys

/-! ## Images and slots -/

/-- `elf_unload`, of an image that is then forgotten. -/
def elfUnload (img : ElfImage) (s : Sys cfg) : SysExec (Sys cfg) :=
  if img.owned ∧ img.base ≠ 0 then s.free img.base else .ok s

def modFind (tskid : Int) (s : Sys cfg) : Option (ModIx cfg) :=
  (List.finRange (modulesMax cfg)).find? fun i => (s.mods i).used && (s.mods i).tskid = tskid

def modAlloc (s : Sys cfg) : Option (ModIx cfg) :=
  (List.finRange (modulesMax cfg)).find? fun i => !(s.mods i).used

theorem modFind_used {tskid : Int} {s : Sys cfg} {i : ModIx cfg}
    (h : modFind tskid s = some i) :
    (s.mods i).used = true ∧ (s.mods i).tskid = tskid := by
  have hp := List.find?_some h
  simpa using hp

theorem modAlloc_unused {s : Sys cfg} {i : ModIx cfg} (h : modAlloc s = some i) :
    (s.mods i).used = false := by
  have hp := List.find?_some h
  simpa using hp

/-- `if (owned) free(stack);`. -/
def freeStack (owned : Bool) (stack : VP) (s : Sys cfg) : SysExec (Sys cfg) :=
  if owned then s.free stack else .ok s

def modFreeSlot (i : ModIx cfg) (s : Sys cfg) : SysExec (Sys cfg) := do
  let m := s.mods i
  let s ← elfUnload m.img s
  let s ← freeStack (m.stackOwned && m.stack ≠ 0) m.stack s
  .ok (s.setMod i .zero)

/-! ## `elf_run` -/

/-- `TA_HLNG`. -/
def taHlng : ATR := 0x00

/-- The part of a path behind its last `/`. -/
def baseName (path : List UInt8) : List UInt8 := (path.reverse.takeWhile (· ≠ 0x2f)).reverse

/-- The arguments of `elf_run`, what its file is, and what the allocator returns. -/
structure RunArgs where
  path : Option (List UInt8)
  tskid : Int
  stack : VP
  stksz : SIZE
  pri : Int
  file : LoadFile
  /-- For the image. -/
  image : Option VP
  /-- For the stack, if `elf_run` allocates it. -/
  stackMem : Option VP

/-- `ctsk`. -/
def RunArgs.ctsk (a : RunArgs) (path : List UInt8) (entry stack : VP) : TCtsk where
  tskatr := taHlng ||| taName
  exinf := 0
  task := entry
  itskpri := a.pri
  stksz := a.stksz
  stk := stack
  name := some (baseName path)

/-- The stack: whether it is allocated, and where it is. -/
def RunArgs.getStack (a : RunArgs) (s : Sys cfg) : Option (Bool × VP × Sys cfg) :=
  if a.stack ≠ 0 then some (false, a.stack, s)
  else
    match a.stackMem with
    | none => none
    | some p => some (true, p, { s with heap := ⟨p, a.stksz.toNat⟩ :: s.heap })

/-- The ID of the task that has been created. -/
def createdId (tskid : Int) (r : Ret cfg) : Except (Ret cfg) Int :=
  if tskid = 0 then
    match r with
    | .newId id => if id ≤ 0 then .error (if id < 0 then .newId id else .er .noid) else .ok id
    | r => .error r
  else if r = .er .ok then .ok tskid else .error r

/-- `acre_tsk` or `cre_tsk`, and `act_tsk`: the ID of the task, or the error. -/
def startTask (tskid : Int) (pk : TCtsk) (s : Sys cfg) :
    SysExec (Sys cfg × Except (Ret cfg) Int) := do
  let (s, r) ← s.call (if tskid = 0 then .acreTsk pk else .creTsk tskid pk)
  match createdId tskid r with
  | .error r => .ok (s, .error r)
  | .ok id => do
    let (s, r) ← s.call (.actTsk id)
    if r ≠ .er .ok then do
      let (s, _) ← s.call (.delTsk id)
      .ok (s, .error r)
    else .ok (s, .ok id)

/-- What `elf_run` remembers during `act_tsk`. -/
structure Pending (cfg : Config) where
  mod : ModIx cfg
  id : Int
  img : ElfImage
  stack : VP
  stackOwned : Bool

/-- `elf_run` returns early, or has started its task. -/
inductive Begun (cfg : Config) where
  | done (r : Ret cfg)
  | pending (p : Pending cfg)

/-- `elf_run`, up to the end of `act_tsk`, with `load` as `elf_load`. -/
def elfRunWith (load : LoadFile → Option VP → Machine → Load (ElfImage × Machine)) (a : RunArgs)
    (s : Sys cfg) : SysExec (Sys cfg × Begun cfg) :=
  match a.path with
  | none => .ok (s, .done (.er .par))
  | some path =>
    if a.stksz = 0 then .ok (s, .done (.er .par)) else
    match load a.file a.image s.machine with
    | .error (.fault e) => .error (.load e)
    | .error (.reject m) => .ok (s.withMachine m, .done (.er .par))
    | .ok (img, m) =>
      let s := s.withMachine m
      match modAlloc s with
      | none => do
        let s ← elfUnload img s
        .ok (s, .done (.er .noid))
      | some mod =>
        match a.getStack s with
        | none => do
          let s ← elfUnload img s
          .ok (s, .done (.er .nomem))
        | some (owned, stack, s) => do
          let (s, x) ← startTask a.tskid (a.ctsk path img.entry stack) s
          match x with
          | .ok id => .ok (s, .pending ⟨mod, id, img, stack, owned⟩)
          | .error r => do
            let s ← freeStack owned stack s
            let s ← elfUnload img s
            .ok (s, .done r)

/-- `elf_run`, up to the end of `act_tsk`. -/
def elfRunBegin (a : RunArgs) (s : Sys cfg) : SysExec (Sys cfg × Begun cfg) := elfRunWith elfLoad a s

/-- The rest of `elf_run`: the slot is filled in. -/
def elfRunEnd (p : Pending cfg) (s : Sys cfg) : Sys cfg × Ret cfg :=
  (s.setMod p.mod ⟨p.id, { p.img with owned := true }, p.stack, p.stackOwned, true⟩, .newId p.id)

def elfRun (a : RunArgs) (s : Sys cfg) : SysExec (Sys cfg × Ret cfg) := do
  let (s, b) ← elfRunBegin a s
  match b with
  | .done r => .ok (s, r)
  | .pending p => .ok (elfRunEnd p s)

/-! ## `elf_kill` -/

def elfKill (tskid : Int) (s : Sys cfg) : SysExec (Sys cfg × Ret cfg) :=
  if tskid < 1 then .ok (s, .er .id) else
  match modFind tskid s with
  | none => .ok (s, .er .noexs)
  | some i => do
    let (s, r) ← s.call (.delTsk tskid)
    if r ≠ .er .ok ∧ r ≠ .er .noexs then .ok (s, r) else do
    let s ← modFreeSlot i s
    .ok (s, .er .ok)

end Ittrium.Elf
