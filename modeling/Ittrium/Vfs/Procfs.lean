import Ittrium.Vfs.Sysfs

/-!
# `procfs.c`

An open generates the text on the stack and copies it to memory of its own. The texts are cut off at
`PROC_BUF_MAX`.

* `procText` — the text of a file
* `pfOpen`, `pfRead`, `pfClose`, `pfStat`, `pfListdir` — the operations; there is no `lseek`
-/

namespace Ittrium.Vfs

open Infra

variable {cfg : Config}

def procBufMax : Nat := 1536

/-! ## Texts -/

section

variable (cap : Nat)

def appendStr (buf : Str) : Str → Str
  | [] => buf
  | c :: s => if buf.length + 1 < cap then appendStr (buf ++ [c]) s else buf

def appendUint (buf : Str) (v : Nat) : Str := appendStr cap buf (decimal 16 v)

/-- A field of exact width. What is too long is cut off, the rest is filled with blanks. -/
def appendField (buf s : Str) (width : Nat) (right : Bool) : Str :=
  let s := s.take width
  let pad := List.replicate (width - s.length) 0x20
  if right then appendStr cap (appendStr cap buf pad) s else appendStr cap (appendStr cap buf s) pad

def appendUintField (buf : Str) (v width : Nat) : Str :=
  appendField cap buf (decimal 16 v) width true

end

def stateName : Ittrium.Stat → Str
  | .noexs => ascii "NOEXS"
  | .run => ascii "RUN"
  | .rdy => ascii "RDY"
  | .wai => ascii "WAI"
  | .was => ascii "WAI"
  | .sus => ascii "SUS"
  | .dmt => ascii "DMT"

def fmtUint (outsz : Int) (v : Nat) : Str :=
  if outsz ≤ 0 then [] else (decimal 12 v).take (outsz.toNat - 1)

section

variable (board : Board) (cap : Nat) (tel : Telemetry cfg)

/-- The column of names, if there is one. -/
def appendName (buf name : Str) : Str :=
  if board.useTskname then appendStr cap (appendField cap buf name tskNameLen false) (ascii " ")
  else buf

def tasksHead : Str :=
  let buf := appendField cap [] (ascii "id") 2 true
  let buf := appendStr cap buf (ascii " ")
  let buf := appendName board cap buf (ascii "name")
  let buf := appendField cap buf (ascii "pri") 3 true
  let buf := appendStr cap buf (ascii " ")
  let buf := appendField cap buf (ascii "state") 5 false
  let buf := appendStr cap buf (ascii " ")
  let buf := appendField cap buf (ascii "stk") 11 true
  let buf := appendStr cap buf (ascii " ")
  let buf := appendField cap buf (ascii "stk%") 4 true
  let buf := appendStr cap buf (ascii " ")
  let buf := appendField cap buf (ascii "cpu%") 4 true
  appendStr cap buf (ascii "\n")

/-- `stk`: the bytes in use, a slash and the size, in 20 bytes. -/
def stkText (t : TCB cfg) : Str :=
  let stk := fmtUint 20 (taskStackUsed tel t)
  let stk := if stk.length + 1 < 20 then stk ++ [slash] else stk
  stk ++ fmtUint (20 - stk.length) t.stksz.toNat

def taskRow (buf : Str) (wall : UW) (t : TCB cfg) : Str :=
  let buf := appendUintField cap buf (BitVec.ofInt 32 t.tskid).toNat 2
  let buf := appendStr cap buf (ascii " ")
  let buf := appendName board cap buf (if t.name = [] then ascii "-" else t.name)
  let buf := appendUintField cap buf (BitVec.ofInt 32 t.tskpri).toNat 3
  let buf := appendStr cap buf (ascii " ")
  let buf := appendField cap buf (stateName t.state) 5 false
  let buf := appendStr cap buf (ascii " ")
  let buf := appendField cap buf (stkText tel t) 11 true
  let buf := appendStr cap buf (ascii " ")
  let buf := appendUintField cap buf (taskStackPct tel t) 4
  let buf := appendStr cap buf (ascii " ")
  let buf := appendUintField cap buf (taskCpuPct wall t) 4
  appendStr cap buf (ascii "\n")

/-- The loop of `gen_tasks`. It ends when there is no room for one more row. -/
def taskRows (buf : Str) : List (TskIx cfg) → Str
  | [] => buf
  | i :: is =>
    let t := tel.core.tcb i
    if t.state = .noexs then taskRows buf is
    else
      let buf := taskRow board cap tel buf (tel.taskWall i) t
      if buf.length + 48 ≥ cap then buf else taskRows buf is

/-- `(unsigned)t->tskid`. -/
def tskidOf (i : TskIx cfg) : Nat := (BitVec.ofInt 32 (tel.core.tcb i).tskid).toNat

def genTasks : Str :=
  let buf := taskRows board cap tel (tasksHead board cap) (List.finRange cfg.tnumTskid)
  match tel.runtsk with
  | none => buf
  | some t =>
    let buf := appendStr cap buf (ascii "run=")
    let buf := appendUint cap buf (tskidOf tel t)
    let buf := appendStr cap buf (ascii " sched=")
    let buf := appendUint cap buf (match tel.schedtsk with
      | some t => tskidOf tel t
      | none => 0)
    appendStr cap buf (ascii "\n")

/-- `get_tim` never fails. -/
def genTicks : Str :=
  let buf := appendUint cap [] tel.core.systemTicks.stHigh.toNat
  let buf := appendStr cap buf (ascii ":")
  let buf := appendUint cap buf tel.core.systemTicks.stLow.toNat
  appendStr cap buf (ascii "\n")

def genMem : Str :=
  let buf := appendStr cap [] (ascii "heap_used=")
  let buf := appendUint cap buf tel.heap.toNat
  appendStr cap buf (ascii "\n")

def genStat : Str :=
  let buf := appendStr cap [] (ascii "wall=")
  let buf := appendUint cap buf tel.core.telemetryWallTicks.toNat
  let buf := appendStr cap buf (ascii " idle=")
  let buf := appendUint cap buf tel.core.telemetryIdleTicks.toNat
  let buf := appendStr cap buf (ascii " idle%=")
  let buf := appendUint cap buf (idleCpuPct tel.idleWall tel.core)
  appendStr cap buf (ascii "\n")

/-- The loop of `gen_interrupts`. -/
def irqRows (buf : Str) : List (Fin telemetryIrqMax) → Str
  | [] => buf
  | v :: vs =>
    if tel.irqCount v = 0 then irqRows buf vs
    else
      let buf := appendUintField cap buf v.val 3
      let buf := appendStr cap buf (ascii " ")
      let buf := appendField cap buf (board.irqVecName v.val) 10 false
      let buf := appendStr cap buf (ascii " ")
      let buf := appendUintField cap buf (tel.irqCount v).toNat 10
      let buf := appendStr cap buf (ascii "\n")
      if buf.length + 32 ≥ cap then buf else irqRows buf vs

def genInterrupts : Str :=
  let buf := appendField cap [] (ascii "vec") 3 true
  let buf := appendStr cap buf (ascii " ")
  let buf := appendField cap buf (ascii "name") 10 false
  let buf := appendStr cap buf (ascii " ")
  let buf := appendField cap buf (ascii "count") 10 true
  let buf := appendStr cap buf (ascii "\n")
  irqRows board cap tel buf (List.finRange telemetryIrqMax)

def genVersion : Str := appendStr cap [] (ascii "ittrium RTOS services\n")

def genFile (name : Str) : Option Str :=
  if name = ascii "tasks" then some (genTasks board cap tel)
  else if name = ascii "ticks" then some (genTicks cap tel)
  else if name = ascii "mem" then some (genMem cap tel)
  else if name = ascii "stat" then some (genStat cap tel)
  else if name = ascii "interrupts" then some (genInterrupts board cap tel)
  else if name = ascii "version" then some (genVersion cap)
  else none

end

/-- What an open of the file generates. -/
def procText (board : Board) (name : Str) (tel : Telemetry cfg) : Option Str :=
  genFile board procBufMax tel name

/-! ## Files -/

/-- `struct proc_file`. -/
structure ProcFile where
  buf : Addr
  len : Nat
  pos : Nat
  pos_le : pos ≤ len

/-- The copies of the texts, each with its terminating zero, and the open files. -/
structure ProcMem where
  bufs : Addr → Option Str
  files : Addr → Option ProcFile

def ProcMem.empty : ProcMem := ⟨fun _ => none, fun _ => none⟩

def ProcMem.setBuf (a : Addr) (t : Option Str) (m : ProcMem) : ProcMem :=
  { m with bufs := Function.update m.bufs a t }

def ProcMem.setFile (a : Addr) (f : Option ProcFile) (m : ProcMem) : ProcMem :=
  { m with files := Function.update m.files a f }

@[simp] theorem ProcMem.setFile_bufs (a : Addr) (f : Option ProcFile) (m : ProcMem) :
    (m.setFile a f).bufs = m.bufs := rfl

@[simp] theorem ProcMem.setBuf_self (a : Addr) (t : Option Str) (m : ProcMem) :
    (m.setBuf a t).bufs a = t := by
  unfold setBuf
  exact Function.update_self ..

theorem ProcMem.setBuf_of_ne {a b : Addr} (h : b ≠ a) (t : Option Str) (m : ProcMem) :
    (m.setBuf a t).bufs b = m.bufs b := by
  unfold setBuf
  exact Function.update_of_ne h ..

@[simp] theorem ProcMem.setFile_self (a : Addr) (f : Option ProcFile) (m : ProcMem) :
    (m.setFile a f).files a = f := by
  unfold setFile
  exact Function.update_self ..

theorem ProcMem.setFile_of_ne {a b : Addr} (h : b ≠ a) (f : Option ProcFile) (m : ProcMem) :
    (m.setFile a f).files b = m.files b := by
  unfold setFile
  exact Function.update_of_ne h ..

theorem ProcMem.setFile_same {a : Addr} {m : ProcMem} {f : Option ProcFile} (h : m.files a = f) :
    m.setFile a f = m := by
  subst h
  unfold setFile
  rw [Function.update_eq_self]

/-! ## Operations -/

/-- What an open gets from outside: what there is to be shown, and the answers of `malloc`. -/
structure ProcEnv (cfg : Config) where
  tel : Telemetry cfg
  file : Option Addr
  buf : Option Addr

def pfOpen (board : Board) (rel : Str) (_flags : Flags) (e : ProcEnv cfg) (m : ProcMem) :
    Except Int Addr × ProcMem :=
  let name := strip rel
  if name = [] then (.error (-1), m)
  else
    match procText board name e.tel with
    | none => (.error (-1), m)
    | some t =>
      match e.file, e.buf with
      | some f, some b =>
        (.ok f,
          (m.setBuf b (some (t ++ [0]))).setFile f (some ⟨b, t.length, 0, Nat.zero_le t.length⟩))
      | _, _ => (.error (-1), m)

/-- An open that fails does nothing. -/
theorem pfOpen_cases (board : Board) (rel : Str) (flags : Flags) (e : ProcEnv cfg) (m : ProcMem) :
    (strip rel = [] ∨ procText board (strip rel) e.tel = none ∨ e.file = none ∨ e.buf = none) ∧
        pfOpen board rel flags e m = (.error (-1), m) ∨
      ∃ t f b, strip rel ≠ [] ∧ procText board (strip rel) e.tel = some t ∧ e.file = some f ∧
        e.buf = some b ∧ pfOpen board rel flags e m =
          (.ok f, (m.setBuf b (some (t ++ [0]))).setFile f
            (some ⟨b, t.length, 0, Nat.zero_le t.length⟩)) := by
  unfold pfOpen
  dsimp only
  by_cases hname : strip rel = []
  · rw [if_pos hname]
    exact Or.inl ⟨Or.inl hname, rfl⟩
  · rw [if_neg hname]
    cases htext : procText board (strip rel) e.tel with
    | none => exact Or.inl ⟨Or.inr (Or.inl rfl), rfl⟩
    | some t =>
      cases hfile : e.file with
      | none => exact Or.inl ⟨Or.inr (Or.inr (Or.inl rfl)), rfl⟩
      | some f =>
        cases hbuf : e.buf with
        | none => exact Or.inl ⟨Or.inr (Or.inr (Or.inr rfl)), rfl⟩
        | some b => exact Or.inr ⟨t, f, b, hname, rfl, rfl, rfl, rfl⟩

def pfRead (f : Addr) (len : Nat) (m : ProcMem) : Option ((Int × List UInt8) × ProcMem) :=
  (m.files f).bind fun file =>
    if h : file.pos ≥ file.len then some ((0, []), m)
    else
      let n := min len (file.len - file.pos)
      (m.bufs file.buf).map fun bytes =>
        ((n, (bytes.drop file.pos).take n),
          m.setFile f (some { file with pos := file.pos + n, pos_le := by omega }))

def pfClose (f : Addr) (m : ProcMem) : Option (Int × ProcMem) :=
  (m.files f).map fun file => (0, (m.setBuf file.buf none).setFile f none)

def procNames : List Str :=
  [ascii "tasks", ascii "ticks", ascii "mem", ascii "stat", ascii "interrupts", ascii "version"]

def pfStat (rel : Str) (_m : ProcMem) : Except Int Stat :=
  let name := strip rel
  if name = [] then .ok ⟨.dir, 0⟩
  else if procNames.any fun n => n = name then .ok ⟨.reg, 0⟩
  else .error (-1)

/-- The path is not looked at, and neither is the sign of the index. -/
def pfListdir (_rel : Str) (nlen : Nat) (idx : Int) (_m : ProcMem) : Option ListResult :=
  nextName procNames nlen idx

/-- `g_proc_ops`. -/
def procfsOps (cfg : Config) (board : Board) : FileOps Unit Addr (ProcEnv cfg) ProcMem where
  «open» := some fun _ => pfOpen board
  read := some pfRead
  write := none
  close := some pfClose
  stat := some fun _ => pfStat
  lseek := none
  listdir := some fun _ => pfListdir

end Ittrium.Vfs
