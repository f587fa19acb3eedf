import Ittrium.Vfs.Ramfs

/-!
# `romfs.c`

The table of entries is the pointer the file system is mounted with, and does not change while it is
mounted. A table of the application holds any names that fit.

* `romFindEnt` — `find_ent`
* `romOpen`, `romRead`, `romClose`, `romStat`, `romLseek`, `romListdir` — the operations
-/

namespace Ittrium.Vfs

open Infra

def romfsNameMax : Nat := 48

/-- `struct romfs_entry`. -/
structure RomfsEntry where
  name : Str
  data : List UInt8
  name_lt : name.length < romfsNameMax

/-- `struct romfs`: the entries. -/
abbrev Romfs := List RomfsEntry

/-- `struct romfs_file`. -/
structure RomfsFile where
  ent : RomfsEntry
  pos : Nat

/-- The open files. -/
structure RomMem where
  files : Addr → Option RomfsFile

def RomMem.empty : RomMem := ⟨fun _ => none⟩

def RomMem.setFile (a : Addr) (f : Option RomfsFile) (m : RomMem) : RomMem :=
  ⟨Function.update m.files a f⟩

def romFindEnt (fs : Romfs) (rel : Str) : Option RomfsEntry :=
  let name := strip rel
  if name = [] then none else fs.find? fun e => e.name = name

def romOpen (fs : Romfs) (rel : Str) (_flags : Flags) (e : Option Addr) (m : RomMem) :
    Except Int Addr × RomMem :=
  match romFindEnt fs rel with
  | none => (.error (-1), m)
  | some ent =>
    match e with
    | none => (.error (-1), m)
    | some a => (.ok a, m.setFile a (some ⟨ent, 0⟩))

def romRead (f : Addr) (len : Nat) (m : RomMem) : Option ((Int × List UInt8) × RomMem) :=
  (m.files f).map fun file =>
    if file.pos ≥ file.ent.data.length then ((0, []), m)
    else
      let n := min len (file.ent.data.length - file.pos)
      ((n, (file.ent.data.drop file.pos).take n), m.setFile f (some ⟨file.ent, file.pos + n⟩))

def romWrite (_f : Addr) (_buf : Nat → UInt8) (_len : Nat) (_e : Option Addr) (m : RomMem) :
    Option (Int × RomMem) := some (-1, m)

def romClose (f : Addr) (m : RomMem) : Option (Int × RomMem) :=
  (m.files f).map fun _ => (0, m.setFile f none)

def romStat (fs : Romfs) (rel : Str) (_m : RomMem) : Except Int Stat :=
  let name := strip rel
  if name = [] then .ok ⟨.dir, 0⟩
  else
    match romFindEnt fs name with
    | none => .error (-1)
    | some e => .ok ⟨.reg, e.data.length⟩

def romLseek (W : Nat) (f : Addr) (off whence : Int) (m : RomMem) : Option (Int × RomMem) :=
  (m.files f).map fun file =>
    let size : Nat := file.ent.data.length
    let np :=
      if whence = vfsSeekSet then some off
      else if whence = vfsSeekCur then some (longAdd W file.pos off)
      else if whence = vfsSeekEnd then some (longAdd W size off)
      else none
    match np with
    | none => (-1, m)
    | some np =>
      if np < 0 then (-1, m)
      else
        let pos := min np.toNat size
        (pos, m.setFile f (some ⟨file.ent, pos⟩))

def romListdir (fs : Romfs) (rel : Str) (nlen : Nat) (idx : Int) (_m : RomMem) :
    Option ListResult :=
  if strip rel ≠ [] then some (.error (-1))
  else if idx < 0 then some (.error (-1))
  else
    match fs[idx.toNat]? with
    | none => some .done
    | some e =>
      if nlen = 0 then some (.error (-1))
      else (storeName e.name nlen).map fun s => .name ⟨s, idx + 1⟩

/-- `g_romfs_ops`. -/
def romfsOps (W : Nat) : FileOps Romfs Addr (Option Addr) RomMem where
  «open» := some romOpen
  read := some romRead
  write := some romWrite
  close := some romClose
  stat := some romStat
  lseek := some (romLseek W)
  listdir := some romListdir

end Ittrium.Vfs
