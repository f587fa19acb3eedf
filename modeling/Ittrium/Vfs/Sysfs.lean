import Ittrium.Vfs.Telemetry

/-!
# `sysfs.c`

A file is a static buffer and the length its text had when the file was opened. Each open writes the
text into the buffer anew. A text has no zero in it, so its length is what `strlen` says.

* `sysText` — the text of a file, and where it is kept
* `sfOpen`, `sfRead`, `sfClose`, `sfStat`, `sfLseek`, `sfListdir` — the operations
-/

namespace Ittrium.Vfs

open Infra

variable {cfg : Config}

/-! ## Buffers and files -/

/-- `el_buf`, `frq_buf`, `midr_buf`, `mmu_buf` and `load_buf`. -/
inductive SysBuf where
  | el
  | frq
  | midr
  | mmu
  | load
deriving DecidableEq

/-- What `data` points to: a buffer, or `loopback_txt`. -/
inductive SysData where
  | buf (b : SysBuf)
  | loopback
deriving DecidableEq

/-- `struct sys_file`. -/
structure SysFile where
  data : SysData
  len : Nat
  pos : Nat
  pos_le : pos ≤ len

/-- The static buffers and the open files. -/
structure SysMem where
  bufs : SysBuf → Nat → Ch
  files : Addr → Option SysFile

def SysMem.empty : SysMem := ⟨fun _ _ => 0, fun _ => none⟩

def loopbackTxt : Str := ascii "up mtu 65536\n"

/-- The bytes at `data`. -/
def SysMem.bytes (m : SysMem) : SysData → Nat → Ch
  | .buf b => m.bufs b
  | .loopback => fun k => loopbackTxt.getD k 0

/-- The text is stored with the terminating zero. -/
def putStr (t : Str) (buf : Nat → Ch) : Nat → Ch := fun k => (t ++ [0]).getD k (buf k)

def SysMem.fill (t : Str) (m : SysMem) : SysData → SysMem
  | .buf b => { m with bufs := Function.update m.bufs b (putStr t (m.bufs b)) }
  | .loopback => m

def SysMem.setFile (a : Addr) (f : Option SysFile) (m : SysMem) : SysMem :=
  { m with files := Function.update m.files a f }

@[simp] theorem SysMem.fill_files (t : Str) (m : SysMem) (d : SysData) :
    (m.fill t d).files = m.files := by
  cases d <;> rfl

@[simp] theorem SysMem.setFile_bytes (a : Addr) (f : Option SysFile) (m : SysMem) :
    (m.setFile a f).bytes = m.bytes := by
  funext d
  cases d <;> rfl

@[simp] theorem SysMem.setFile_self (a : Addr) (f : Option SysFile) (m : SysMem) :
    (m.setFile a f).files a = f := by
  unfold setFile
  exact Function.update_self ..

theorem SysMem.setFile_of_ne {a b : Addr} (h : b ≠ a) (f : Option SysFile) (m : SysMem) :
    (m.setFile a f).files b = m.files b := by
  unfold setFile
  exact Function.update_of_ne h ..

theorem SysMem.setFile_same {a : Addr} {m : SysMem} {f : Option SysFile} (h : m.files a = f) :
    m.setFile a f = m := by
  subst h
  unfold setFile
  rw [Function.update_eq_self]

theorem putStr_of_lt {t : Str} {buf : Nat → Ch} {k : Nat} (h : k < t.length) :
    putStr t buf k = t[k] := by
  simp [putStr, List.getElem?_append, h]

theorem SysMem.fill_bytes_of_ne {m : SysMem} {d d' : SysData} (t : Str) (h : d' ≠ d) :
    (m.fill t d).bytes d' = m.bytes d' := by
  cases d with
  | loopback => rfl
  | buf b =>
    cases d' with
    | loopback => rfl
    | buf b' =>
      unfold fill bytes
      refine Function.update_of_ne ?_ _ _
      rintro rfl
      exact h rfl

/-! ## Texts -/

def u64ToDec (v cap : Nat) : Str :=
  if v = 0 then ascii "0" else (decDigits 24 v).reverse.take (cap - 1)

/-- `dig[(v >> i) & 0xf]`. -/
def hexDigit (v : BitVec 64) (i : Nat) : Ch :=
  (ascii "0123456789abcdef").getD ((v >>> i) &&& 0xf).toNat 0

def u64ToHex (v : BitVec 64) (cap : Nat) : Str :=
  let shifts := [60, 56, 52, 48, 44, 40, 36, 32, 28, 24, 20, 16, 12, 8, 4, 0]
  (ascii "0x" ++ shifts.map (hexDigit v)).take (cap - 1)

def readCurrentEl (tel : Telemetry cfg) : Nat := ((tel.currentEl >>> 2) &&& 3).toNat

def readSctlrM (tel : Telemetry cfg) : Nat := (tel.sctlr &&& 1).toNat

/-- The text of `cpu/load`. -/
def loadText (tel : Telemetry cfg) : Str :=
  u64ToDec (idleCpuPct tel.idleWall tel.core) 16 ++ ascii "% idle wall=" ++
    u64ToDec tel.core.telemetryWallTicks.toNat 16 ++ ascii "\n"

/-- What `fill_file` generates. -/
def sysText (name : Str) (tel : Telemetry cfg) : Option (SysData × Str) :=
  if name = ascii "cpu/el" then
    some (.buf .el, u64ToDec (readCurrentEl tel) (32 - 2) ++ ascii "\n")
  else if name = ascii "cpu/cntfrq" then
    some (.buf .frq, u64ToDec tel.cntfrq.toNat (32 - 2) ++ ascii "\n")
  else if name = ascii "cpu/midr" then
    some (.buf .midr, u64ToHex tel.midr (40 - 2) ++ ascii "\n")
  else if name = ascii "cpu/mmu" then
    some (.buf .mmu, u64ToDec (readSctlrM tel) (16 - 2) ++ ascii "\n")
  else if name = ascii "cpu/load" then some (.buf .load, loadText tel)
  else if name = ascii "net/loopback" then some (.loopback, loopbackTxt)
  else none

theorem sysText_loopback {name t : Str} {tel : Telemetry cfg}
    (h : sysText name tel = some (.loopback, t)) : t = loopbackTxt := by
  unfold sysText at h
  repeat' split at h
  all_goals cases h
  rfl

/-- `fill_file`. -/
def fillFile (name : Str) (tel : Telemetry cfg) (m : SysMem) : Option ((SysData × Nat) × SysMem) :=
  (sysText name tel).map fun x => ((x.1, x.2.length), m.fill x.2 x.1)

/-! ## Operations -/

/-- What an open gets from outside: what there is to be shown, and an answer of `malloc`. -/
structure SysEnv (cfg : Config) where
  tel : Telemetry cfg
  file : Option Addr

def sfOpen (rel : Str) (_flags : Flags) (e : SysEnv cfg) (m : SysMem) : Except Int Addr × SysMem :=
  let name := strip rel
  if name = [] then (.error (-1), m)
  else
    match fillFile name e.tel m with
    | none => (.error (-1), m)
    | some ((data, len), m) =>
      match e.file with
      | none => (.error (-1), m)
      | some a => (.ok a, m.setFile a (some ⟨data, len, 0, Nat.zero_le len⟩))

/-- An open fails with nothing done, fails for want of memory, or succeeds. -/
theorem sfOpen_cases (rel : Str) (flags : Flags) (e : SysEnv cfg) (m : SysMem) :
    (strip rel = [] ∨ sysText (strip rel) e.tel = none) ∧ sfOpen rel flags e m = (.error (-1), m) ∨
      ∃ d t, strip rel ≠ [] ∧ sysText (strip rel) e.tel = some (d, t) ∧
        (e.file = none ∧ sfOpen rel flags e m = (.error (-1), m.fill t d) ∨
          ∃ a, e.file = some a ∧ sfOpen rel flags e m =
            (.ok a, (m.fill t d).setFile a (some ⟨d, t.length, 0, Nat.zero_le t.length⟩))) := by
  unfold sfOpen fillFile
  dsimp only
  by_cases hname : strip rel = []
  · rw [if_pos hname]
    exact Or.inl ⟨Or.inl hname, rfl⟩
  · rw [if_neg hname]
    cases htext : sysText (strip rel) e.tel with
    | none => exact Or.inl ⟨Or.inr rfl, rfl⟩
    | some x =>
      refine Or.inr ⟨x.1, x.2, hname, rfl, ?_⟩
      cases hfile : e.file with
      | none => exact Or.inl ⟨rfl, rfl⟩
      | some a => exact Or.inr ⟨a, rfl, rfl⟩

def sfRead (f : Addr) (len : Nat) (m : SysMem) : Option ((Int × List UInt8) × SysMem) :=
  (m.files f).map fun file =>
    if h : file.pos ≥ file.len then ((0, []), m)
    else
      let n := min len (file.len - file.pos)
      ((n, (List.range n).map fun k => m.bytes file.data (file.pos + k)),
        m.setFile f (some { file with pos := file.pos + n, pos_le := by omega }))

def sfWrite (_f : Addr) (_buf : Nat → UInt8) (_len : Nat) (_e : SysEnv cfg) (m : SysMem) :
    Option (Int × SysMem) := some (-1, m)

def sfClose (f : Addr) (m : SysMem) : Option (Int × SysMem) :=
  (m.files f).map fun _ => (0, m.setFile f none)

def sfLseek (W : Nat) (f : Addr) (off whence : Int) (m : SysMem) : Option (Int × SysMem) :=
  (m.files f).map fun file =>
    let np :=
      if whence = vfsSeekSet then some off
      else if whence = vfsSeekCur then some (longAdd W file.pos off)
      else if whence = vfsSeekEnd then some (longAdd W file.len off)
      else none
    match np with
    | none => (-1, m)
    | some np =>
      if np < 0 then (-1, m)
      else
        let pos := min np.toNat file.len
        (pos, m.setFile f (some { file with pos := pos, pos_le := Nat.min_le_right _ _ }))

def sysFiles : List Str :=
  [ascii "cpu/el", ascii "cpu/cntfrq", ascii "cpu/midr", ascii "cpu/mmu", ascii "cpu/load",
    ascii "net/loopback"]

def sfStat (rel : Str) (_m : SysMem) : Except Int Stat :=
  let name := strip rel
  if name = [] then .ok ⟨.dir, 0⟩
  else if name ∈ sysFiles then .ok ⟨.reg, 0⟩
  else if name = ascii "cpu" ∨ name = ascii "net" then .ok ⟨.dir, 0⟩
  else .error (-1)

/-- The table `sf_listdir` goes through. -/
def sysList (rel : Str) : Option (List Str) :=
  let p := strip rel
  if p = ascii "cpu" then
    some [ascii "el", ascii "cntfrq", ascii "midr", ascii "mmu", ascii "load"]
  else if p = ascii "net" then some [ascii "loopback"]
  else if p ≠ [] then none
  else some [ascii "cpu", ascii "net"]

def sfListdir (rel : Str) (nlen : Nat) (idx : Int) (_m : SysMem) : Option ListResult :=
  match sysList rel with
  | none => some (.error (-1))
  | some list => if idx < 0 then some (.error (-1)) else nextName list nlen idx

/-- `g_sys_ops`. -/
def sysfsOps (cfg : Config) (W : Nat) : FileOps Unit Addr (SysEnv cfg) SysMem where
  «open» := some fun _ => sfOpen
  read := some sfRead
  write := some sfWrite
  close := some sfClose
  stat := some fun _ => sfStat
  lseek := some (sfLseek W)
  listdir := some fun _ => sfListdir

end Ittrium.Vfs
