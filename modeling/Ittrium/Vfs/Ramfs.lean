import Ittrium.Vfs.Calls
import Mathlib.Algebra.Group.Nat.Defs

/-!
# `ramfs.c`

`size_t` and `long` have `W` bits. The memory behind `data` is a function, of which the first `cap`
bytes are the entry's own; `data` is a null pointer just if `cap` is `0`. The bounds that the code
keeps by its checks are fields, so an entry or a position out of bounds cannot be built. A write
that leaves the buffer has no result.

* `RamMem` — the entries and the open files
* `rfOpen`, `rfRead`, `rfWrite`, `rfLseek`, `rfClose`, `rfStat`, `rfListdir` — the operations
* `ramfsMount` — which clears the one file system there is
-/

namespace Ittrium.Vfs

open Infra

def ramfsMaxFiles : Nat := 16
def ramfsNameMax : Nat := 48
def ramfsMaxSize : Nat := 4096

/-! ## Data -/

/-- `struct ramfs_entry`. -/
structure RamfsEntry where
  name : Str
  data : Nat → UInt8
  size : Nat
  cap : Nat
  used : Bool
  name_lt : name.length < ramfsNameMax
  size_le : size ≤ cap
  cap_le : cap ≤ ramfsMaxSize

abbrev EntIx := Fin ramfsMaxFiles

/-- `struct ramfs_file`. -/
structure RamfsFile where
  ent : EntIx
  pos : Nat
  pos_le : pos ≤ ramfsMaxSize

/-- The pointer to an open file. -/
abbrev Addr := Nat

/-- What `malloc` or `realloc` returns: where the memory is, and what is in it. -/
structure Block where
  addr : Addr
  bytes : Nat → UInt8

/-- A null pointer, or memory. -/
abbrev Answer := Option Block

/-- `g_fs`, and the open files. -/
structure RamMem where
  ents : EntIx → RamfsEntry
  files : Addr → Option RamfsFile

/-- An entry of zeroes. -/
def RamfsEntry.zero : RamfsEntry where
  name := []
  data := fun _ => 0
  size := 0
  cap := 0
  used := false
  name_lt := by decide
  size_le := Nat.le_refl 0
  cap_le := Nat.zero_le _

/-- `g_fs` at the start, with no open file. -/
def RamMem.empty : RamMem := ⟨fun _ => .zero, fun _ => none⟩

def RamMem.setEnt (i : EntIx) (e : RamfsEntry) (m : RamMem) : RamMem :=
  { m with ents := Function.update m.ents i e }

def RamMem.setFile (a : Addr) (f : Option RamfsFile) (m : RamMem) : RamMem :=
  { m with files := Function.update m.files a f }

@[simp] theorem RamMem.setFile_ents (a : Addr) (f : Option RamfsFile) (m : RamMem) :
    (m.setFile a f).ents = m.ents := rfl

@[simp] theorem RamMem.setEnt_self (i : EntIx) (e : RamfsEntry) (m : RamMem) :
    (m.setEnt i e).ents i = e := by
  unfold setEnt
  exact Function.update_self ..

theorem RamMem.setEnt_of_ne {i j : EntIx} (h : j ≠ i) (e : RamfsEntry) (m : RamMem) :
    (m.setEnt i e).ents j = m.ents j := by
  unfold setEnt
  exact Function.update_of_ne h ..

@[simp] theorem RamMem.setFile_self (a : Addr) (f : Option RamfsFile) (m : RamMem) :
    (m.setFile a f).files a = f := by
  unfold setFile
  exact Function.update_self ..

theorem RamMem.setFile_of_ne {a b : Addr} (h : b ≠ a) (f : Option RamfsFile) (m : RamMem) :
    (m.setFile a f).files b = m.files b := by
  unfold setFile
  exact Function.update_of_ne h ..

/-! ## Names -/

/-- `find_ent`. -/
def findEnt (m : RamMem) (rel : Str) : Option EntIx :=
  let name := strip rel
  if name = [] then none
  else (List.finRange ramfsMaxFiles).find? fun i => (m.ents i).used && (m.ents i).name = name

/-- A new entry. Its name is what `strncpy` puts into the field. -/
def RamfsEntry.new (name : Str) : RamfsEntry where
  name := name.take (ramfsNameMax - 1)
  data := fun _ => 0
  size := 0
  cap := 0
  used := true
  name_lt := by
    rw [List.length_take, ramfsNameMax]
    omega
  size_le := Nat.le_refl 0
  cap_le := Nat.zero_le _

/-- `alloc_ent`. -/
def allocEnt (m : RamMem) (name : Str) : Option (EntIx × RamMem) :=
  ((List.finRange ramfsMaxFiles).find? fun i => !(m.ents i).used).map fun i =>
    (i, m.setEnt i (.new name))

/-! ## Open files -/

/-- The buffer is freed. -/
def RamfsEntry.truncate (e : RamfsEntry) : RamfsEntry :=
  { e with data := fun _ => 0, size := 0, cap := 0, size_le := Nat.le_refl 0, cap_le := Nat.zero_le _ }

/-- The entry `rf_open` opens: found, or made if the flags say so. -/
def entFor (name : Str) (flags : Flags) (m : RamMem) : Option (EntIx × RamMem) :=
  match findEnt m name with
  | some i => some (i, m)
  | none => if flags.has vfsOCreat then allocEnt m name else none

def truncEnt (i : EntIx) (flags : Flags) (m : RamMem) : RamMem :=
  if flags.has vfsOTrunc && (m.ents i).cap ≠ 0 then m.setEnt i (m.ents i).truncate else m

/-- Where a new file begins. -/
def openPos (e : RamfsEntry) (flags : Flags) : Nat := if flags.has vfsOAppend then e.size else 0

theorem openPos_le (e : RamfsEntry) (flags : Flags) : openPos e flags ≤ ramfsMaxSize := by
  unfold openPos
  split
  · exact Nat.le_trans e.size_le e.cap_le
  · exact Nat.zero_le _

def rfOpen (rel : Str) (flags : Flags) (e : Answer) (m : RamMem) : Except Int Addr × RamMem :=
  let name := strip rel
  if name = [] then (.error (-1), m)
  else
    match entFor name flags m with
    | none => (.error (-1), m)
    | some (i, m) =>
      let m := truncEnt i flags m
      match e with
      | none => (.error (-1), m)
      | some b =>
        (.ok b.addr,
          m.setFile b.addr (some ⟨i, openPos (m.ents i) flags, openPos_le (m.ents i) flags⟩))

def rfRead (f : Addr) (len : Nat) (m : RamMem) : Option ((Int × List UInt8) × RamMem) :=
  (m.files f).map fun file =>
    let ent := m.ents file.ent
    if h : file.pos ≥ ent.size then ((0, []), m)
    else
      let n := min len (ent.size - file.pos)
      ((n, (List.range n).map fun k => ent.data (file.pos + k)),
        m.setFile f (some ⟨file.ent, file.pos + n, by
          have := ent.size_le
          have := ent.cap_le
          omega⟩))

/-- `while (ncap < need) ncap *= 2`, for a `ncap` that is not zero. -/
def doubled (need ncap : Nat) : Nat :=
  if ncap < need ∧ 0 < ncap then doubled need (ncap * 2) else ncap
termination_by need - ncap

theorem le_doubled {need ncap : Nat} : 0 < ncap → need ≤ doubled need ncap := by
  fun_induction doubled need ncap with
  | case1 ncap h ih => exact fun _ => ih (by omega)
  | case2 ncap h => exact fun _ => by omega

/-- The capacity that `need` bytes call for. -/
def grownCap (need cap : Nat) : Nat :=
  min (doubled need (if cap ≠ 0 then cap * 2 else 256)) ramfsMaxSize

theorem le_grownCap {need : Nat} (cap : Nat) (h : need ≤ ramfsMaxSize) : need ≤ grownCap need cap := by
  refine Nat.le_min.mpr ⟨le_doubled ?_, h⟩
  split <;> omega

/-- The entry with room for `need` bytes. The new bytes are whatever is in the new memory. -/
def RamfsEntry.reserve (need : Nat) (e : Answer) (ent : RamfsEntry) (h : need ≤ ramfsMaxSize) :
    Option RamfsEntry :=
  if hneed : need > ent.cap then
    e.map fun b =>
      { ent with
        data := fun k => if k < ent.cap then ent.data k else b.bytes k
        cap := grownCap need ent.cap
        size_le := by
          have := ent.size_le
          have := le_grownCap ent.cap h
          omega
        cap_le := Nat.min_le_right _ _ }
  else some ent

/-- `memcpy` to `pos`, and the new size. -/
def RamfsEntry.store (pos len : Nat) (buf : Nat → UInt8) (ent : RamfsEntry)
    (h : pos + len ≤ ent.cap) : RamfsEntry :=
  { ent with
    data := fun k => if pos ≤ k ∧ k < pos + len then buf (k - pos) else ent.data k
    size := if pos + len > ent.size then pos + len else ent.size
    size_le := by
      have := ent.size_le
      split <;> omega }

variable (W : Nat)

def rfWrite (f : Addr) (buf : Nat → UInt8) (len : Nat) (e : Answer) (m : RamMem) :
    Option (Int × RamMem) :=
  (m.files f).bind fun file =>
    let need := (file.pos + len) % 2 ^ W
    if h : need > ramfsMaxSize then some (-1, m)
    else
      match (m.ents file.ent).reserve need e (Nat.le_of_not_gt h) with
      | none => some (-1, m)
      | some ent =>
        if hcap : file.pos + len ≤ ent.cap then
          let m := m.setEnt file.ent (ent.store file.pos len buf hcap)
          some (len, m.setFile f (some ⟨file.ent, file.pos + len, Nat.le_trans hcap ent.cap_le⟩))
        else none

def rfClose (f : Addr) (m : RamMem) : Option (Int × RamMem) :=
  (m.files f).map fun _ => (0, m.setFile f none)

/-- A sum of two numbers of type `long`. -/
def longAdd (a b : Int) : Int := (a + b).bmod (2 ^ W)

def rfLseek (f : Addr) (off whence : Int) (m : RamMem) : Option (Int × RamMem) :=
  (m.files f).map fun file =>
    let size := (m.ents file.ent).size
    let np :=
      if whence = vfsSeekSet then some off
      else if whence = vfsSeekCur then some (longAdd W file.pos off)
      else if whence = vfsSeekEnd then some (longAdd W size off)
      else none
    match np with
    | none => (-1, m)
    | some np =>
      if np < 0 then (-1, m)
      else
        let pos := min np.toNat size
        (pos, m.setFile f (some ⟨file.ent, pos,
          Nat.le_trans (Nat.min_le_right _ _)
            (Nat.le_trans (m.ents file.ent).size_le (m.ents file.ent).cap_le)⟩))

/-! ## Paths without an open file -/

def rfStat (rel : Str) (m : RamMem) : Except Int Stat :=
  let name := strip rel
  if name = [] then .ok ⟨.dir, 0⟩
  else
    match findEnt m name with
    | none => .error (-1)
    | some i => .ok ⟨.reg, (m.ents i).size⟩

/-- The files, in the order of their entries. -/
def usedEnts (m : RamMem) : List EntIx :=
  (List.finRange ramfsMaxFiles).filter fun i => (m.ents i).used

def rfListdir (rel : Str) (nlen : Nat) (idx : Int) (m : RamMem) : Option ListResult :=
  if strip rel ≠ [] then some (.error (-1))
  else if idx < 0 then some (.error (-1))
  else
    match (usedEnts m)[idx.toNat]? with
    | none => some .done
    | some i => (storeName (m.ents i).name nlen).map fun s => .name ⟨s, idx + 1⟩

/-- `g_ramfs_ops`. The pointer to the file system is always `&g_fs`. -/
def ramfsOps : FileOps Unit Addr Answer RamMem where
  «open» := some fun _ => rfOpen
  read := some rfRead
  write := some (rfWrite W)
  close := some rfClose
  stat := some fun _ => rfStat
  lseek := some (rfLseek W)
  listdir := some fun _ => rfListdir

def ramfsMount (path : Str) (v : VfsState Unit Addr Answer RamMem) :
    Int × VfsState Unit Addr Answer RamMem :=
  vfsMount path (ramfsOps W) () { v with mem := { v.mem with ents := fun _ => .zero } }

end Ittrium.Vfs
